import DeltaCircuit.Proofs.Circuit.Linear

/-!
# The order of the entries

A Z-set keeps its entries in the order in which they came, and all operators go through them in this
order. None of it can be seen in the weights: from exact maps of the same weight functions, every
operator but an aggregate makes maps of the same weight functions, over runs of any length. Linear
operators sum up shares, joins sum up products, and a distinct operator looks at one weight at a
time.

* `ZSet.weight_join_congr`, `Operator.shareSum_congr` — joins and linear operators.
* `Circuit.SameEntries` — inputs that hold the same entries in any order.
* `Circuit.sameStream` — the invariant of two runs side by side: streams of the same weights.
* `Circuit.run_entryOrder` — inputs that differ in the order of their entries give the same weights.
-/

namespace DeltaCircuit

namespace ZSet

variable {x x' y y' : ZSet} {f : Expr} {v : Value}

/-- Whether two entries of a join make a value is a matter of their twins. -/
theorem joins_congr (hf : f.Exact) {l l' r r' : Value} (hl : l.Twins l') (hr : r.Twins r') :
    joins f v l r = joins f v l' r' := by
  obtain ⟨hkey, hcontent⟩ := hl.entryKey_entryContent
  obtain ⟨hkey', hcontent'⟩ := hr.entryKey_entryContent
  have hkeys : r.entryKey.same l.entryKey = r'.entryKey.same l'.entryKey := hkey'.same_eq hkey
  have hjoined : (f.result [l.entryKey, l.entryContent, r.entryContent]).Twins
      (f.result [l'.entryKey, l'.entryContent, r'.entryContent]) :=
    hf.result (.cons hkey (.cons hcontent (.cons hcontent' .nil)))
  have hsame := blind_same v _ _ hjoined
  dsimp only at hsame
  rw [joins, joins, hkeys, hsame]

/-- **Joins of maps of the same weights** have the same weights. -/
theorem weight_join_congr (hf : f.Exact) (hx : x.ExactMap) (hx' : x'.ExactMap) (hy : y.ExactMap)
    (hy' : y'.ExactMap) (hleft : ∀ v, x.weight v = x'.weight v)
    (hright : ∀ v, y.weight v = y'.weight v) {out out' : ZSet} (h : x.join y f = .ok out)
    (h' : x'.join y' f = .ok out') (v : Value) : out.weight v = out'.weight v := by
  calc out.weight v
      = sumBy (fun l => sumBy (fun r => if joins f v l r then 1 else 0) y) x := weight_of_join h v
    _ = sumBy (fun l => sumBy (fun r => if joins f v l r then 1 else 0) y) x' := by
        refine sumBy_congr (fun l l' hl => ?_) hx hx' hleft
        -- twins on the left are joined with the same entries on the right
        refine congrArg List.sum (List.map_congr_left fun r hr => ?_)
        dsimp only
        rw [joins_congr hf hl (.refl (hy.exact r hr))]
    _ = sumBy (fun l => sumBy (fun r => if joins f v l r then 1 else 0) y') x' := by
        -- and on the right, as a join matches twins of a row with the same rows
        refine congrArg List.sum (List.map_congr_left fun l hl => ?_)
        refine congrArg (l.2 * ·) (sumBy_congr (fun r r' hr => ?_) hy hy' hright)
        rw [joins_congr hf (.refl (hx'.exact l hl)) hr]
    _ = out'.weight v := (weight_of_join h' v).symm

/-- Maps of the same entries have the same weights. -/
theorem weight_perm (hx : x.Distinct) (hx' : x'.Distinct) (h : x.Perm x') (v : Value) :
    x.weight v = x'.weight v := by
  rw [← hx.total_eq_weight, ← hx'.total_eq_weight]
  exact (h.map _).sum_eq

theorem ExactMap.perm (hx : x.ExactMap) (h : x.Perm x') : x'.ExactMap where
  distinct := by
    -- different is a symmetric relation, so the order of the entries does not matter to it
    refine (h.pairwise_iff fun {a b} hab => Bool.eq_false_iff.mpr fun hba => ?_).mp hx.distinct
    exact Bool.eq_false_iff.mp hab (Value.same_equivalence.symm hba)
  exact entry hentry := hx.exact entry (h.mem_iff.mpr hentry)

end ZSet

/-! ### One operator -/

namespace Operator

variable {op : Operator} {s s' : Streams} {id : Nat} {z z' : ZSet} {x x' : Nat → ZSet}

theorem shareSum_congr (hop : op.Exact) (hx : ∀ n, (x n).ExactMap) (hx' : ∀ n, (x' n).ExactMap)
    (h : ∀ n v, (x n).weight v = (x' n).weight v) (v : Value) :
    op.shareSum x v = op.shareSum x' v :=
  congrArg List.sum (List.map_congr_left fun _ hshare =>
    ZSet.sumBy_congr (hop.blind_factor hshare v) (hx _) (hx' _) (h _))

/-- **One step of what is not linear.** Constants do not depend on anything, and joins and distinct
operators only on the weights that they read. -/
theorem weight_congr_of_nonlinear (hop : op.Exact) (hlinear : op.kind.isLinear = false)
    (hkind : op.kind.isAggregate = false)
    (hread : ∀ n z, op.slot s.outputs n = some z → x n = z)
    (hread' : ∀ n z, op.slot s'.outputs n = some z → x' n = z) (hx : ∀ n, (x n).ExactMap)
    (hx' : ∀ n, (x' n).ExactMap) (hsame : ∀ n v, (x n).weight v = (x' n).weight v)
    (h : op.Makes s op.kind z) (h' : op.Makes s' op.kind z') (v : Value) :
    z.weight v = z'.weight v := by
  generalize op.kind = kind at h h' hlinear hkind
  cases h with
  | constant hz =>
    cases h' with
    | constant hz' =>
      -- a constant reads nothing
      rw [Except.ok.inj (hz.symm.trans hz')]
  | join hleft hright hf hz =>
    cases h' with
    | join hleft' hright' hf' hz' =>
      -- both runs apply the same function
      obtain rfl := Option.some.inj (hf.symm.trans hf')
      obtain rfl := hread 0 _ hleft
      obtain rfl := hread 1 _ hright
      obtain rfl := hread' 0 _ hleft'
      obtain rfl := hread' 1 _ hright'
      exact ZSet.weight_join_congr (hop.function _ hf) (hx 0) (hx' 0) (hx 1) (hx' 1) (hsame 0)
        (hsame 1) hz hz' v
  | distinct hy =>
    cases h' with
    | distinct hy' =>
      -- only the sign of a weight matters, and the weights are the same
      obtain rfl := hread 0 _ hy
      obtain rfl := hread' 0 _ hy'
      rw [ZSet.weight_distinct (hx 0).distinct, ZSet.weight_distinct (hx' 0).distinct, hsame 0 v]
  | aggregate => cases hkind
  | _ => cases hlinear

end Operator

/-! ### Runs -/

namespace Circuit

variable {c : Circuit} {op : Operator} {inputs inputs' : List Tables} {rows rows' : List Row}
  {id : Nat}

/-- **The same entries in any order**, step by step and for every table of the circuit. -/
def SameEntries (c : Circuit) (inputs inputs' : List Tables) : Prop :=
  List.Forall₂ (fun tables tables' : Tables => ∀ table ∈ c.tables,
    (tables.contents table).Perm (tables'.contents table)) inputs inputs'

theorem SameEntries.exactInputs (h : c.SameEntries inputs inputs')
    (hinputs : c.ExactInputs inputs) : c.ExactInputs inputs' := by
  intro tables' hmem table htable
  obtain ⟨k, hk⟩ := List.mem_iff_getElem?.mp hmem
  rcases h.getElem? k with ⟨-, hnone⟩ | ⟨tables, other, hgiven, hother, hperm⟩
  · cases hnone.symm.trans hk
  · obtain rfl := Option.some.inj (hother.symm.trans hk)
    exact (hinputs tables (List.mem_of_getElem? hgiven) table htable).perm (hperm table htable)

theorem SameEntries.weightAt_eq (h : c.SameEntries inputs inputs') (hinputs : c.ExactInputs inputs)
    {table : String} (htable : table ∈ c.tables) (v : Value) (k : Nat) :
    weightAt inputs table v k = weightAt inputs' table v k := by
  unfold weightAt
  rcases h.getElem? k with ⟨hnone, hnone'⟩ | ⟨tables, tables', hgiven, hgiven', hperm⟩
  · rw [hnone, hnone']
  · have hmap := hinputs tables (List.mem_of_getElem? hgiven) table htable
    rw [hgiven, hgiven', Option.getD_some, Option.getD_some]
    exact ZSet.weight_perm hmap.distinct (hmap.perm (hperm table htable)).distinct
      (hperm table htable) v

section SideBySide

variable (h : c.ExactRun inputs rows) (h' : c.ExactRun inputs' rows')
  (hlength : inputs.length = inputs'.length)
  (htables : ∀ table ∈ c.tables, ∀ v k, weightAt inputs table v k = weightAt inputs' table v k)

/-- The streams of an operator in two runs have the same weights. -/
def SameStream (rows rows' : List Row) (id : Nat) : Prop :=
  ∀ k v, streamWeight rows id v k = streamWeight rows' id v k

include h h' hlength

/-- Streams are the same if they are so in every step of the runs, which are of the same length. -/
theorem sameStream_of_lt (hsame : ∀ k, k < rows.length → k < rows'.length → ∀ v,
    streamWeight rows id v k = streamWeight rows' id v k) : SameStream rows rows' id := by
  intro k v
  have hlength' : rows.length = rows'.length := by
    rw [h.traces.length_eq, h'.traces.length_eq, hlength]
  rcases Nat.lt_or_ge k rows.length with hk | hk
  · exact hsame k hk (hlength' ▸ hk) v
  · -- both runs have come to their end
    rw [← weight_stream, ← weight_stream, stream_of_le hk, stream_of_le (hlength' ▸ hk)]

/-- An integral adds up what it reads, step by step. -/
theorem sameStream_integral (hop : c.get? id = some op) {input : Nat}
    (hinput : op.inputs[0]? = some input) (hkind : op.kind = .integral)
    (hsame : SameStream rows rows' input) : SameStream rows rows' id := by
  refine sameStream_of_lt h h' hlength fun k hk hk' v => ?_
  rw [h.traces.streamWeight_integral hop hinput hkind hk (h.distinct input),
    h'.traces.streamWeight_integral hop hinput hkind hk' (h'.distinct input)]
  exact congrArg List.sum (List.map_congr_left fun i _ => hsame i v)

/-- A differential takes away what it has read in the step before. -/
theorem sameStream_differential (hop : c.get? id = some op) {input : Nat}
    (hinput : op.inputs[0]? = some input) (hkind : op.kind = .differential)
    (hsame : SameStream rows rows' input) : SameStream rows rows' id := by
  refine sameStream_of_lt h h' hlength fun k hk hk' v => ?_
  rw [h.traces.streamWeight_differential hop hinput hkind hk (h.distinct input),
    h'.traces.streamWeight_differential hop hinput hkind hk' (h'.distinct input), hsame k v]
  cases k with
  | zero => rfl
  | succ k => rw [streamWeightBefore, streamWeightBefore, hsame k v]

/-- All other operators read what their inputs give in the same step. -/
theorem sameStream_stateless (hop : c.get? id = some op) (htable : op.kind.table? = none)
    (hintegral : op.kind ≠ .integral) (hdifferential : op.kind ≠ .differential)
    (hexact : op.Exact) (hkind : op.kind.isAggregate = false)
    (hinputs : ∀ input ∈ op.inputs, SameStream rows rows' input) : SameStream rows rows' id := by
  refine sameStream_of_lt h h' hlength fun k hk hk' v => ?_
  have hreading (n : Nat) (u : Value) :
      (reading op rows k n).weight u = (reading op rows' k n).weight u := by
    rcases reading_cases op n with ⟨input, hmem, hreading⟩ | hreading
    · rw [hreading, hreading]
      exact hinputs input hmem k u
    · rw [hreading, hreading]
  cases hlinear : op.kind.isLinear with
  | true =>
    -- a linear operator adds up shares, which depend on the weights it reads only
    rw [h.streamWeight_shares hop hlinear htable hintegral hdifferential hk,
      h'.streamWeight_shares hop hlinear htable hintegral hdifferential hk']
    exact Operator.shareSum_congr hexact (h.exactMap_reading op k) (h'.exactMap_reading op k)
      hreading v
  | false =>
    obtain ⟨tables, hz⟩ := h.traces.makes hop hintegral hdifferential hk
    obtain ⟨tables', hz'⟩ := h'.traces.makes hop hintegral hdifferential hk'
    exact Operator.weight_congr_of_nonlinear hexact hlinear hkind
      (fun n z => reading_of_slot hk) (fun n z => reading_of_slot hk')
      (h.exactMap_reading op k) (h'.exactMap_reading op k) hreading hz hz' v

include htables

/-- **One operator** over a whole run: from streams of the same weights, it makes a stream of the
same weights. -/
theorem sameStream_of_inputs (hc : c.Built) (hop : c.get? id = some op) (hexact : op.Exact)
    (hkind : op.kind.isAggregate = false)
    (hinputs : ∀ input ∈ op.inputs, SameStream rows rows' input) : SameStream rows rows' id := by
  by_cases hrelay : op.kind = .integral ∨ op.kind = .differential
  · obtain ⟨-, input, -, hread, -⟩ :=
      hc.relay hop (by rcases hrelay with hcase | hcase <;> rw [hcase] <;> rfl)
    have hinput : op.inputs[0]? = some input := by rw [hread]; rfl
    have hsame := hinputs input (by rw [hread]; exact List.mem_singleton_self _)
    rcases hrelay with hcase | hcase
    · exact sameStream_integral h h' hlength hop hinput hcase hsame
    · exact sameStream_differential h h' hlength hop hinput hcase hsame
  · obtain ⟨hintegral, hdifferential⟩ := not_or.mp hrelay
    cases htable : op.kind.table? with
    | none =>
      exact sameStream_stateless h h' hlength hop htable hintegral hdifferential hexact
        hkind hinputs
    | some table =>
      -- a source gives the table
      refine sameStream_of_lt h h' hlength fun k hk hk' v => ?_
      rw [h.traces.streamWeight_source hop htable hk, h'.traces.streamWeight_source hop htable hk']
      exact htables table (mem_tables hop htable) v k

/-- **All operators** over a whole run. -/
theorem sameStream (hc : c.Built) (hexact : c.Exact)
    (hkinds : ∀ op ∈ c.operators, op.kind.isAggregate = false) (hop : c.get? id = some op) :
    SameStream rows rows' id := by
  -- an operator reads what stands in front of it, which is the induction
  induction id using Nat.strong_induction_on generalizing op with
  | h id ih =>
    have hmem : op ∈ c.operators := List.mem_of_getElem? hop
    refine sameStream_of_inputs h h' hlength htables hc hop (hexact op hmem) (hkinds op hmem)
      fun input hinput => ?_
    have hlt : input < id := hc.ordered id op hop input hinput
    obtain ⟨other, hother⟩ := exists_get?_of_lt (hlt.trans (lt_size_of_get? hop))
    exact ih input hlt hother

end SideBySide

/-- **The order of the entries cannot be observed.** If the inputs of two runs hold, over values
without floating point numbers, the same entries in any order, then the circuit reports the same
sinks in both, and at every step with the same weights. -/
theorem run_entryOrder (hc : c.Built) (hexact : c.Exact)
    (hkinds : ∀ op ∈ c.operators, op.kind.isAggregate = false) (hinputs : c.ExactInputs inputs)
    (hsame : c.SameEntries inputs inputs') {outs outs' : List Tables}
    (hrun : c.run inputs = .ok outs) (hrun' : c.run inputs' = .ok outs') :
    outs.map (·.map Prod.fst) = outs'.map (·.map Prod.fst) ∧
      ∀ name v k, weightAt outs name v k = weightAt outs' name v k := by
  obtain ⟨rows, htrace, rfl⟩ := (run_eq_ok_iff hc.ordered).mp hrun
  obtain ⟨rows', htrace', rfl⟩ := (run_eq_ok_iff hc.ordered).mp hrun'
  have hinputs' : c.ExactInputs inputs' := hsame.exactInputs hinputs
  refine ⟨htrace.names_eq htrace' hsame.length_eq, fun name v k => ?_⟩
  rw [htrace.weightAt_sinkOutputs, htrace'.weightAt_sinkOutputs]
  -- the last sink of a name is the one that is reported
  cases hfind : c.reporters.reverse.find? fun reporter => decide (reporter.1 = name) with
  | none => rfl
  | some reporter =>
    obtain ⟨op, hop, -⟩ :=
      mem_reporters.mp (List.mem_reverse.mp (List.mem_of_find?_eq_some hfind))
    exact sameStream (hinputs.run hc.ordered hexact hkinds htrace)
      (hinputs'.run hc.ordered hexact hkinds htrace') hsame.length_eq
      (fun table htable => hsame.weightAt_eq hinputs htable) hc hexact hkinds hop k v

/-- The rows of a table, each as often as the square of its number says. -/
def selfJoin : Circuit :=
  ((((empty "squares").push ⟨.source "t" .bool, [], none, .zset .bool, true⟩).push
    ⟨.index .bool .bool, [0], some (Expr.ofForm
      (some (.function (some (.rawTuple [.bool, .bool])) [.byRef .bool]))
      (.closure [.named "row" (.byRef .bool)] (Expr.ofForm (some (.rawTuple [.bool, .bool]))
        (.rawTuple [Expr.var "row" .bool, Expr.var "row" .bool])))),
      .indexedZSet .bool .bool, true⟩).push
    ⟨.join .bool .bool, [1, 1], some (Expr.ofForm
      (some (.function (some .bool) [.byRef .bool, .byRef .bool, .byRef .bool]))
      (.closure [.named "key" (.byRef .bool), .named "left" (.byRef .bool),
        .named "right" (.byRef .bool)] (Expr.var "left" .bool))), .zset .bool, true⟩).push
    ⟨.sink "v" "" none, [2], none, .zset .bool, true⟩

theorem built_selfJoin : selfJoin.Built := .push (.push (.push (.push (.empty _) rfl) rfl) rfl) rfl

theorem exact_selfJoin : selfJoin.Exact := by
  intro op hop
  simp only [selfJoin, Circuit.empty, Circuit.push, List.nil_append, List.cons_append,
    List.mem_cons, List.not_mem_nil, or_false] at hop
  rcases hop with rfl | rfl | rfl | rfl <;>
    refine ⟨fun f hf => ?_, fun literal hliteral => by cases hliteral⟩ <;> cases hf
  · have hrow : (Expr.var "row" .bool).Exact := .leaf rfl rfl
    have hpair : (Expr.ofForm (some (.rawTuple [.bool, .bool]))
      (.rawTuple [Expr.var "row" .bool, Expr.var "row" .bool])).Exact := .of_parts rfl ⟨hrow, hrow⟩
    exact .of_parts rfl hpair
  · have hleft : (Expr.var "left" .bool).Exact := .leaf rfl rfl
    exact .of_parts rfl hleft

/-- The outputs show the order of the inputs, but not in their weights. -/
theorem run_entryOrder_selfJoin :
    ∃ outs outs', selfJoin.run [[("t", [(.bool true, 2), (.bool false, 1)])]] = .ok outs ∧
      selfJoin.run [[("t", [(.bool false, 1), (.bool true, 2)])]] = .ok outs' ∧
      ∀ name v k, weightAt outs name v k = weightAt outs' name v k := by
  have hrun : selfJoin.run [[("t", [(.bool true, 2), (.bool false, 1)])]] =
      .ok [[("v", [(.bool true, 4), (.bool false, 1)])]] := rfl
  have hrun' : selfJoin.run [[("t", [(.bool false, 1), (.bool true, 2)])]] =
      .ok [[("v", [(.bool false, 1), (.bool true, 4)])]] := rfl
  have hsame : selfJoin.SameEntries [[("t", [(.bool true, 2), (.bool false, 1)])]]
      [[("t", [(.bool false, 1), (.bool true, 2)])]] := by
    refine .cons (fun table htable => ?_) .nil
    have htables : ∀ table ∈ selfJoin.tables, table = "t" := by decide
    obtain rfl := htables table htable
    exact .swap _ _ _
  exact ⟨_, _, hrun, hrun', (run_entryOrder built_selfJoin exact_selfJoin (by decide) (by decide)
    hsame hrun hrun').2⟩

end Circuit
end DeltaCircuit
