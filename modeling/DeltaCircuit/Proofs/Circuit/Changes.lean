import DeltaCircuit.Proofs.Circuit.Distinct
import DeltaCircuit.Proofs.Circuit.Incrementalize

/-!
# Incremental circuits compute changes

An incremental circuit gets the changes of its tables and gives the changes of its outputs. Inside
it, everything is as in the circuit that it was made of: behind the integrals stand the tables as
they are after all changes so far, and in front of the differentials the outputs as they are now.

* `Circuit.Accumulates` — the whole tables, step by step, that belong to changes of tables.
* `ChangesOf` — outputs that are the differences of other outputs.
* `Circuit.Emits.batch` — the simulation: selected by the places of the old operators, a row of the
  incremental circuit is a row of the old one on the whole tables.
* `Circuit.run_incrementalize` — runs on changes give the changes of the run on whole tables.

No bound on the weights of the inputs or of the sums is assumed: the integrals have formed the same
sums, so these fit if the incremental run succeeds.
-/

namespace DeltaCircuit

/-! ### Tables and outputs over time -/

/-- The Z-set of a name; what is absent is empty. -/
def Tables.contents (tables : Tables) (name : String) : ZSet := (Assoc.get? tables name).getD []

/-- The tables that the sources of a circuit read. -/
def Circuit.tables (c : Circuit) : List String := c.operators.filterMap fun op => op.kind.table?

/-- **Whole tables.** At every step, every table of the circuit is the sum of its inputs so far,
merged one after another into an empty Z-set. -/
structure Circuit.Accumulates (c : Circuit) (inputs sums : List Tables) : Prop where
  length_eq : sums.length = inputs.length
  sum : ∀ (k : Nat) (tables : Tables), sums[k]? = some tables → ∀ table ∈ c.tables,
    ZSet.accumulate ((inputs.take (k + 1)).map fun given => given.contents table) =
      .ok (tables.contents table)

/-- The weight of a value in the output of a name at a step. -/
def weightAt (steps : List Tables) (name : String) (v : Value) (k : Nat) : Int :=
  (((steps[k]?).getD []).contents name).weight v

/-- The weight at the step before. Before the first step it is zero. -/
def weightBefore (steps : List Tables) (name : String) (v : Value) : Nat → Int
  | 0 => 0
  | k + 1 => weightAt steps name v k

/-- **Changes.** Step by step, the same names with the differences of the weights from the step
before. -/
structure ChangesOf (outs deltas : List Tables) : Prop where
  names : deltas.map (·.map Prod.fst) = outs.map (·.map Prod.fst)
  change : ∀ name v k, k < outs.length →
    weightAt deltas name v k = weightAt outs name v k - weightBefore outs name v k

/-- **Changes add up.** The changes up to a step sum to the output of the step. -/
theorem ChangesOf.sum {outs deltas : List Tables} (h : ChangesOf outs deltas) (name : String)
    (v : Value) {k : Nat} (hk : k < outs.length) :
    ((List.range (k + 1)).map (weightAt deltas name v)).sum = weightAt outs name v k := by
  induction k with
  | zero =>
    have hfirst := h.change name v 0 hk
    rw [weightBefore, Int.sub_zero] at hfirst
    simpa using hfirst
  | succ k ih =>
    rw [List.range_succ, List.map_append, List.sum_append, ih (Nat.lt_of_succ_lt hk),
      List.map_singleton, List.sum_singleton, h.change name v (k + 1) hk, weightBefore]
    ring

namespace Circuit

variable {c out : Circuit} {places : List Nat} {past : List Row} {tables : Tables} {row : Row}
  {op : Operator} {id : Nat}

theorem mem_tables {table : String} (hop : c.get? id = some op)
    (htable : op.kind.table? = some table) : table ∈ c.tables :=
  List.mem_filterMap.mpr ⟨op, List.mem_of_getElem? hop, htable⟩

/-- Z-sets for the tables of a circuit can be given together. -/
theorem exists_tables {names : List String} (P : String → ZSet → Prop)
    (h : ∀ name ∈ names, ∃ z, P name z) :
    ∃ tables : Tables, ∀ name ∈ names, P name (tables.contents name) := by
  induction names with
  | nil => exact ⟨[], fun name hname => absurd hname List.not_mem_nil⟩
  | cons first names ih =>
    obtain ⟨tables, htables⟩ := ih fun name hname => h name (List.mem_cons_of_mem _ hname)
    obtain ⟨z, hz⟩ := h first List.mem_cons_self
    refine ⟨(first, z) :: tables, fun name hname => ?_⟩
    rw [Tables.contents, Assoc.get?_cons]
    by_cases heq : first = name
    · subst heq
      rwa [if_pos rfl]
    · rw [if_neg heq]
      exact htables name ((List.mem_cons.mp hname).resolve_left (Ne.symm heq))

/-! ### The operators around the old circuit -/

theorem Emits.getElem? (h : out.Emits past tables row) (hop : out.get? id = some op) :
    ∃ z, row[id]? = some z ∧ op.outputAfter past ⟨row, tables⟩ id = .ok z := by
  have hlt : id < row.length := h.length_eq ▸ lt_size_of_get? hop
  have hz : row[id]? = some row[id] := List.getElem?_eq_getElem hlt
  exact ⟨_, hz, h.output id op _ hop hz⟩

/-- A source gives its table. -/
theorem Emits.source (h : out.Emits past tables row) (hop : out.get? id = some op)
    {table : String} (htable : op.kind.table? = some table) :
    row[id]? = some (tables.contents table) := by
  obtain ⟨z, hz, hout⟩ := h.getElem? hop
  rw [Operator.outputAfter_eq_ok (by rintro hkind; cases hkind ▸ htable)
    (by rintro hkind; cases hkind ▸ htable)] at hout
  generalize op.kind = kind at hout htable
  cases hout with
  | source =>
    obtain rfl := Option.some.inj htable
    exact hz
  | _ => cases htable

/-- A sink gives what it reads. -/
theorem outputAfter_sink_eq_ok {s : Streams} {z : ZSet} (hsink : op.kind.isSink = true) :
    op.outputAfter past s id = .ok z ↔ op.slot s.outputs 0 = some z := by
  rw [Operator.outputAfter_eq_ok (by rintro hkind; cases hkind ▸ hsink)
    (by rintro hkind; cases hkind ▸ hsink)]
  generalize op.kind = kind at hsink
  constructor
  · intro hmade
    cases hmade with
    | sink hx => exact hx
    | _ => cases hsink
  · intro hx
    cases kind with
    | sink name query comment => exact .sink hx
    | _ => cases hsink

/-- An integral gives the sum of what it has read. -/
theorem Emits.integral (h : out.Emits past tables row) {place start : Nat} {other : Operator}
    (hplace : out.get? place = some (relay .integral start other)) :
    ∃ z, row[place]? = some z ∧
      ZSet.accumulate ((past ++ [row]).map fun row => (row[start]?).getD []) = .ok z := by
  obtain ⟨z, hz, hout⟩ := h.getElem? hplace
  refine ⟨z, hz, ?_⟩
  obtain ⟨x, hx, hout⟩ := Except.bind_eq_ok.mp hout
  have hslot : row[start]? = some x := Operator.input_eq_ok.mp hx
  rw [List.map_append, List.map_singleton, ZSet.accumulate_concat, hslot, Option.getD_some]
  exact hout

/-- A differential gives the difference of what it reads from what it read before. -/
theorem Emits.differential (h : out.Emits past tables row) {change place : Nat}
    (hop : out.get? change = some op) (hkind : op.kind = .differential)
    (hinputs : op.inputs = [place]) :
    ∃ z x, row[change]? = some z ∧ row[place]? = some x ∧
      match past.getLast? with
      | none => z = x
      | some previous => x.merge ((previous[place]?).getD []) (-1) = .ok z := by
  obtain ⟨z, hz, hout⟩ := h.getElem? hop
  obtain ⟨x, hx, hout⟩ := Except.bind_eq_ok.mp hout
  have hslot := Operator.slot_of_statelessOutput (by rw [hkind]; rfl) hx
  simp only [Operator.slot, hinputs] at hslot
  refine ⟨z, x, hz, hslot, ?_⟩
  simp only [hkind, Operator.history, List.getLast?_map, Operator.slot, hinputs] at hout
  cases hlast : past.getLast? with
  | none =>
    rw [hlast] at hout
    exact (Except.pure_eq_ok.mp hout).symm
  | some previous =>
    rw [hlast] at hout
    exact hout

/-! ### The old circuit inside the new one -/

/-- What a copy reads in a row, the old operator reads in the selection from it. -/
theorem slot_of_copy {inputs : List OperatorId}
    (hinputs : List.Forall₂ (fun (input new : Nat) => places[input]? = some new) op.inputs inputs)
    (row : Row) (n : Nat) :
    (op.slot (pick places row) n).getD [] = ((op.withInputs inputs).slot row n).getD [] ∧
      ∀ x, (op.withInputs inputs).slot row n = some x → op.slot (pick places row) n = some x := by
  have hold : op.slot (pick places row) n = op.inputs[n]?.bind ((pick places row)[·]?) := rfl
  have hnew : (op.withInputs inputs).slot row n = inputs[n]?.bind (row[·]?) := rfl
  rw [hold, hnew]
  rcases hinputs.getElem? n with ⟨hinput, hcopy⟩ | ⟨input, new, hinput, hcopy, hplace⟩
  · rw [hinput, hcopy]
    exact ⟨rfl, fun x hx => nomatch hx⟩
  · rw [hinput, hcopy, Option.bind_some, Option.bind_some, getElem?_pick hplace]
    refine ⟨rfl, fun x hx => ?_⟩
    rw [hx]
    rfl

/-- **One step.** Selected by the places of the old operators, a row of the new circuit is a row of
the old one, on tables that agree with the integrals. -/
theorem Emits.batch (hlength : places.length = c.size)
    (hfound : ∀ (i : Nat) op place, c.get? i = some op → places[i]? = some place →
      out.FoundAt places op place)
    (h : out.Emits past tables row) {whole : Tables}
    (hwhole : ∀ (i place : Nat) op table, c.get? i = some op → op.kind.table? = some table →
      places[i]? = some place → row[place]? = some (whole.contents table)) :
    c.Emits (past.map (pick places)) whole (pick places row) where
  length_eq := by rw [pick, List.length_map, hlength]
  output := by
    intro id op z hop hz
    have hlt : id < places.length := by
      rw [hlength]
      exact lt_size_of_get? hop
    have hplace : places[id]? = some places[id] := List.getElem?_eq_getElem hlt
    have hvalue : (row[places[id]]?).getD [] = z := by
      rw [getElem?_pick hplace] at hz
      exact Option.some.inj hz
    cases hfound id op places[id] hop hplace with
    | source start hsource _ _ =>
      -- the integral shows the whole table
      cases hkind : op.kind with
      | source table element =>
        have hintegral := hwhole id places[id] op table hop (by rw [hkind]; rfl) hplace
        rw [hintegral, Option.getD_some] at hvalue
        rw [Operator.outputAfter_eq_ok (by simp [hkind]) (by simp [hkind]), hkind, ← hvalue]
        exact .source
      | _ =>
        rw [hkind] at hsource
        cases hsource
    | sink input hsink hinputs hread =>
      -- the place of a sink is the place of what it reads
      refine (outputAfter_sink_eq_ok hsink).mpr ?_
      rw [Operator.slot, hinputs, List.getElem?_cons_zero, Option.bind_some,
        getElem?_pick hread, hvalue]
    | copy inputs hsource hsink hcopy hinputs =>
      obtain ⟨x, hx, hout⟩ := h.getElem? hcopy
      obtain rfl : x = z := by rw [← hvalue, hx, Option.getD_some]
      have hreads : (op.withInputs inputs).ReadsLike op ⟨row, tables⟩
          ⟨pick places row, whole⟩ := by
        refine ⟨rfl, rfl, hinputs.length_eq, fun n => (slot_of_copy hinputs row n).2, ?_⟩
        intro table htable
        cases (OperatorKind.table?_of_isSource hsource).symm.trans htable
      refine hreads.outputAfter ?_ hout
      -- the rows before are selections as well
      rw [Operator.history, Operator.history, List.map_map]
      exact List.map_congr_left fun r _ => (slot_of_copy hinputs r 0).1

/-- A source is found at its integral. -/
theorem source_of_foundAt {table : String} {place : Nat} (htable : op.kind.table? = some table)
    (h : out.FoundAt places op place) :
    ∃ start, out.get? start = some op ∧ out.get? place = some (relay .integral start op) := by
  cases h with
  | source start _ hstart hplace => exact ⟨start, hstart, hplace⟩
  | sink _ hsink _ _ => cases (OperatorKind.table?_of_isSink hsink).symm.trans htable
  | copy _ hsource _ _ _ => cases (OperatorKind.table?_of_isSource hsource).symm.trans htable

/-- **The integrals** of the new circuit show the sums of the tables. -/
theorem Traces.integral {inputs : List Tables} {rows : List Row}
    (h : out.Traces [] inputs rows) {start place : Nat} (hstart : out.get? start = some op)
    {table : String} (htable : op.kind.table? = some table)
    (hplace : out.get? place = some (relay .integral start op)) {k : Nat}
    (hrow : rows[k]? = some row) :
    ∃ z, row[place]? = some z ∧
      ZSet.accumulate ((inputs.take (k + 1)).map fun given => given.contents table) = .ok z := by
  -- the source shows the inputs, step by step
  have hsources : rows.map (fun row => (row[start]?).getD []) =
      inputs.map fun given => given.contents table := by
    refine List.ext_getElem? fun j => ?_
    rw [List.getElem?_map, List.getElem?_map]
    cases hj : inputs[j]? with
    | none =>
      have hnone : rows[j]? = none := by
        rw [List.getElem?_eq_none_iff] at hj ⊢
        rwa [h.length_eq]
      rw [hnone]
      rfl
    | some given =>
      have hlt : j < rows.length := h.length_eq ▸ (List.getElem?_eq_some_iff.mp hj).1
      have hr : rows[j]? = some rows[j] := List.getElem?_eq_getElem hlt
      rw [hr, Option.map_some, Option.map_some, (h.emits hj hr).source hstart htable,
        Option.getD_some]
  have hlt : k < inputs.length := h.length_eq ▸ (List.getElem?_eq_some_iff.mp hrow).1
  obtain ⟨z, hz, hsum⟩ := (h.emits (List.getElem?_eq_getElem hlt) hrow).integral hplace
  refine ⟨z, hz, ?_⟩
  obtain ⟨hk, rfl⟩ := List.getElem?_eq_some_iff.mp hrow
  rw [List.map_take, ← hsources, ← List.map_take, List.take_succ_eq_append_getElem hk]
  exact hsum

/-! ### Outputs of the sinks -/

/-- Sinks that differentiate others make up one list with them. -/
theorem exists_pairs {news olds : List (String × OperatorId)}
    (h : List.Forall₂ (out.Differentiates places) news olds) :
    ∃ pairs : List ((String × OperatorId) × (String × OperatorId)),
      news = pairs.map Prod.fst ∧ olds = pairs.map Prod.snd ∧
        ∀ pair ∈ pairs, pair.2.1 = pair.1.1 ∧ out.Differentiates places pair.1 pair.2 := by
  induction h with
  | nil => exact ⟨[], rfl, rfl, fun pair hpair => absurd hpair List.not_mem_nil⟩
  | @cons new old news olds hfirst _ ih =>
    obtain ⟨pairs, rfl, rfl, hpairs⟩ := ih
    refine ⟨(new, old) :: pairs, rfl, rfl, fun pair hpair => ?_⟩
    rcases List.mem_cons.mp hpair with rfl | hrest
    · cases hfirst with
      | intro name new old change place sink difference h₁ h₂ h₃ h₄ h₅ h₆ h₇ =>
        exact ⟨rfl, .intro name new old change place sink difference h₁ h₂ h₃ h₄ h₅ h₆ h₇⟩
    · exact hpairs pair hrest

/-- What the new sink of a pair reports: the difference of what is found for the old one. -/
theorem Emits.weight_sink (h : out.Emits past tables row) {new old : String × OperatorId}
    (hdiff : out.Differentiates places new old)
    (hdistinct : ∀ r ∈ row :: past, ∀ (i : Nat) z, (pick places r)[i]? = some z → z.Distinct)
    (v : Value) :
    ((row[new.2]?).getD [] : ZSet).weight v =
      (((pick places row)[old.2]?).getD [] : ZSet).weight v -
        match past.getLast? with
        | none => 0
        | some previous => (((pick places previous)[old.2]?).getD [] : ZSet).weight v := by
  obtain ⟨name, new, old, change, place, sink, difference, hnew, hsink, hinputs, hchange, hkind,
    hreads, hplace⟩ := hdiff
  obtain ⟨reported, hreported, hout⟩ := h.getElem? hnew
  have hslot := (outputAfter_sink_eq_ok hsink).mp hout
  rw [Operator.slot, hinputs, List.getElem?_cons_zero, Option.bind_some] at hslot
  -- the sink reads the differential of what the old sink reads
  obtain ⟨z, x, hz, hx, hmerge⟩ := h.differential hchange hkind hreads
  obtain rfl : z = reported := Option.some.inj (hz.symm.trans hslot)
  have hnow : (pick places row)[old]? = some x := by
    rw [getElem?_pick hplace, hx, Option.getD_some]
  show ((row[new]?).getD [] : ZSet).weight v = (((pick places row)[old]?).getD [] : ZSet).weight v -
    match past.getLast? with
    | none => 0
    | some previous => (((pick places previous)[old]?).getD [] : ZSet).weight v
  rw [hreported, hnow, Option.getD_some, Option.getD_some]
  cases hlast : past.getLast? with
  | none =>
    rw [hlast] at hmerge
    rw [hmerge, Int.sub_zero]
  | some previous =>
    rw [hlast] at hmerge
    have hbefore := getElem?_pick hplace previous
    have hmem : previous ∈ past := List.mem_of_getLast? hlast
    have hd := hdistinct row List.mem_cons_self old x hnow
    have hd' := hdistinct previous (List.mem_cons_of_mem _ hmem) old _ hbefore
    rw [ZSet.weight_of_merge hd hd' hmerge]
    show _ = x.weight v - (((pick places previous)[old]?).getD [] : ZSet).weight v
    rw [hbefore, Option.getD_some]
    ring

/-- The weight of a value in the stream of an operator at a step. -/
def streamWeight (rows : List Row) (id : OperatorId) (v : Value) (k : Nat) : Int :=
  ((((rows[k]?).getD [])[id]?).getD [] : ZSet).weight v

/-- Step by step, a sink of the new circuit gives the changes of the sink it was made of. -/
theorem Traces.streamWeight_sink {inputs : List Tables} {rows : List Row}
    (h : out.Traces [] inputs rows) {new old : String × OperatorId}
    (hdiff : out.Differentiates places new old)
    (hdistinct : ∀ r ∈ rows, ∀ (i : Nat) z, (pick places r)[i]? = some z → z.Distinct)
    (v : Value) {k : Nat} (hk : k < rows.length) :
    streamWeight rows new.2 v k = streamWeight (rows.map (pick places)) old.2 v k -
      match k with
      | 0 => 0
      | k + 1 => streamWeight (rows.map (pick places)) old.2 v k := by
  have hlt : k < inputs.length := h.length_eq ▸ hk
  have hrow : rows[k]? = some rows[k] := List.getElem?_eq_getElem hk
  -- all rows that the differential has seen hold maps
  have hseen : ∀ r ∈ rows[k] :: ([] ++ rows.take k), ∀ (i : Nat) z,
      (pick places r)[i]? = some z → z.Distinct := by
    intro r hr
    rcases List.mem_cons.mp hr with rfl | hpast
    · exact hdistinct _ (List.mem_of_getElem? hrow)
    · exact hdistinct r (List.mem_of_mem_take hpast)
  have hsink := (h.emits (List.getElem?_eq_getElem hlt) hrow).weight_sink hdiff hseen v
  unfold streamWeight
  rw [List.getElem?_map, hrow, Option.map_some, Option.getD_some, Option.getD_some, hsink]
  cases k with
  | zero => rfl
  | succ k =>
    have hk' : k < rows.length := Nat.lt_of_succ_lt hk
    have hlast : ([] ++ rows.take (k + 1)).getLast? = some rows[k] := by
      rw [List.nil_append, List.take_succ_eq_append_getElem hk', List.getLast?_concat]
    rw [hlast]
    dsimp only
    rw [List.getElem?_map, List.getElem?_eq_getElem hk', Option.map_some, Option.getD_some]

section Reports

variable {ι : Type} {items : List ι} {key : ι → String} {place : ι → Nat}

/-- The output of a step, if the sinks are the items of a list. -/
theorem sinkOutputs_of_items (hitems : c.reporters = items.map fun i => (key i, place i))
    (hrow : row.length = c.size) :
    c.sinkOutputs row =
      Assoc.setAll (items.map fun i => (key i, ((row[place i]?).getD [] : ZSet))) := by
  rw [sinkOutputs_eq c row hrow, reports, hitems, List.map_map]
  rfl

/-- The weights of an output are those of the last sink of its name. -/
theorem weightAt_of_items (hitems : c.reporters = items.map fun i => (key i, place i))
    {rows : List Row} (hrows : ∀ row ∈ rows, row.length = c.size) (name : String) (v : Value)
    (k : Nat) :
    weightAt (rows.map c.sinkOutputs) name v k =
      match items.reverse.find? fun i => key i = name with
      | none => 0
      | some i => streamWeight rows (place i) v k := by
  unfold streamWeight
  rw [weightAt, List.getElem?_map]
  cases hrow : rows[k]? with
  | none =>
    cases items.reverse.find? fun i => key i = name <;> rfl
  | some row =>
    rw [Option.map_some, Option.getD_some, Tables.contents,
      sinkOutputs_of_items hitems (hrows row (List.mem_of_getElem? hrow)), Assoc.get?_setAll]
    cases items.reverse.find? fun i => key i = name <;> rfl

end Reports

/-! ### Whole runs -/

/-- Whole tables exist for every run of the new circuit. -/
theorem Traces.exists_accumulates {inputs : List Tables} {rows : List Row}
    (hlength : places.length = c.size)
    (hfound : ∀ (i : Nat) op place, c.get? i = some op → places[i]? = some place →
      out.FoundAt places op place)
    (h : out.Traces [] inputs rows) : ∃ sums, c.Accumulates inputs sums := by
  obtain ⟨sums, hsums⟩ : ∃ sums : List Tables, List.Forall₂ (fun k tables => ∀ table ∈ c.tables,
      ZSet.accumulate ((inputs.take (k + 1)).map fun given => given.contents table) =
        .ok (tables.contents table)) (List.range inputs.length) sums := by
    -- at every step, the integral of a table holds its sum
    refine List.exists_forall₂ fun k hk => exists_tables (fun table z => ZSet.accumulate
      ((inputs.take (k + 1)).map fun given => given.contents table) = .ok z) fun table hmem => ?_
    obtain ⟨op, hop, htable⟩ := List.mem_filterMap.mp hmem
    obtain ⟨i, hi⟩ := List.mem_iff_getElem?.mp hop
    have hlt : i < places.length := by
      rw [hlength]
      exact lt_size_of_get? hi
    have hk' : k < rows.length := by
      rw [h.length_eq]
      exact List.mem_range.mp hk
    obtain ⟨start, hstart, hplace⟩ :=
      source_of_foundAt htable (hfound i op _ hi (List.getElem?_eq_getElem hlt))
    obtain ⟨z, -, hz⟩ := h.integral hstart htable hplace (List.getElem?_eq_getElem hk')
    exact ⟨z, hz⟩
  refine ⟨sums, ?_, fun k tables hk => ?_⟩
  · rw [← hsums.length_eq, List.length_range]
  · rcases hsums.getElem? k with ⟨-, hnone⟩ | ⟨k', tables', hrange, htables, hsum⟩
    · cases hnone.symm.trans hk
    · obtain rfl := Option.some.inj (htables.symm.trans hk)
      obtain ⟨hlt, hk'⟩ := List.getElem?_eq_some_iff.mp hrange
      rw [List.getElem_range] at hk'
      exact hk' ▸ hsum

/-- **Many steps.** On the whole tables the old circuit has the trace that is selected from that of
the new one. -/
theorem Traces.batch {inputs sums : List Tables} {rows : List Row}
    (hlength : places.length = c.size)
    (hfound : ∀ (i : Nat) op place, c.get? i = some op → places[i]? = some place →
      out.FoundAt places op place)
    (hsums : c.Accumulates inputs sums) (h : out.Traces [] inputs rows) :
    c.Traces [] sums (rows.map (pick places)) := by
  refine traces_of_emits (by rw [List.length_map, h.length_eq, hsums.length_eq])
    fun k whole row' hwhole hk => ?_
  rw [List.getElem?_map] at hk
  obtain ⟨row, hrow, rfl⟩ := Option.map_eq_some_iff.mp hk
  have hlt : k < inputs.length := h.length_eq ▸ (List.getElem?_eq_some_iff.mp hrow).1
  rw [← List.map_take]
  refine (h.emits (List.getElem?_eq_getElem hlt) hrow).batch hlength hfound ?_
  -- the integral has formed the same sum
  intro i place op table hop htable hplace
  obtain ⟨start, hstart, hintegral⟩ := source_of_foundAt htable (hfound i op place hop hplace)
  obtain ⟨z, hz, hsum⟩ := h.integral hstart htable hintegral hrow
  have hsame := hsum.symm.trans (hsums.sum k whole hwhole table (mem_tables hop htable))
  rw [hz, Except.ok.inj hsame]

/-- The streams of a run on whole tables are maps. -/
theorem Traces.distinct_of_accumulates {inputs sums : List Tables} {rows : List Row}
    (h : c.Traces [] sums rows) (hc : c.Ordered) (hsums : c.Accumulates inputs sums)
    (hrow : row ∈ rows) (i : Nat) (z : ZSet) (hz : row[i]? = some z) : z.Distinct := by
  obtain ⟨k, hk⟩ := List.mem_iff_getElem?.mp hrow
  have hlt : k < sums.length := h.length_eq ▸ (List.getElem?_eq_some_iff.mp hk).1
  refine (h.emits (List.getElem?_eq_getElem hlt) hk).distinct hc (fun op hop table htable => ?_) hz
  obtain ⟨j, hj⟩ := List.mem_iff_getElem?.mp hop
  exact ZSet.distinct_of_accumulate
    (hsums.sum k _ (List.getElem?_eq_getElem hlt) table (mem_tables hj htable))

/-- **The outputs** of the new circuit are the changes of the outputs of the old one. -/
theorem Traces.changesOf {inputs sums : List Tables} {rows : List Row} (hc : c.Ordered)
    (hdiff : List.Forall₂ (out.Differentiates places) out.reporters c.reporters)
    (hsums : c.Accumulates inputs sums) (h : out.Traces [] inputs rows)
    (hbatch : c.Traces [] sums (rows.map (pick places))) :
    ChangesOf ((rows.map (pick places)).map c.sinkOutputs) (rows.map out.sinkOutputs) := by
  obtain ⟨pairs, hnews, holds, hpairs⟩ := exists_pairs hdiff
  -- the pairs list the sinks of both circuits under the same names
  replace hnews : out.reporters = pairs.map fun pair => (pair.1.1, pair.1.2) := hnews
  replace holds : c.reporters = pairs.map fun pair => (pair.1.1, pair.2.2) := by
    rw [holds]
    refine List.map_congr_left fun pair hpair => ?_
    rw [← (hpairs pair hpair).1]
  have hrows := h.length_of_mem
  have hpicked := hbatch.length_of_mem
  refine ⟨?_, fun name v k hk => ?_⟩
  · rw [List.map_map, List.map_map, List.map_map]
    refine List.map_congr_left fun row hrow => ?_
    rw [Function.comp_apply, Function.comp_apply, Function.comp_apply,
      sinkOutputs_of_items hnews (hrows row hrow),
      sinkOutputs_of_items holds (hpicked _ (List.mem_map_of_mem hrow))]
    exact Assoc.keys_setAll _ _ _ _
  · rw [List.length_map, List.length_map] at hk
    have hbefore : ∀ k, weightBefore ((rows.map (pick places)).map c.sinkOutputs) name v (k + 1) =
        weightAt ((rows.map (pick places)).map c.sinkOutputs) name v k := fun _ => rfl
    cases hfind : pairs.reverse.find? fun pair => decide (pair.1.1 = name) with
    | none =>
      -- no sink has the name
      have hnew : weightAt (rows.map out.sinkOutputs) name v k = 0 := by
        rw [weightAt_of_items hnews hrows, hfind]
      have hold (k : Nat) :
          weightAt ((rows.map (pick places)).map c.sinkOutputs) name v k = 0 := by
        rw [weightAt_of_items holds hpicked, hfind]
      cases k with
      | zero =>
        rw [hnew, hold]
        rfl
      | succ k =>
        rw [hnew, hbefore, hold, hold]
        rfl
    | some pair =>
      -- the last pair of the name decides in both circuits
      have hmem : pair ∈ pairs := List.mem_reverse.mp (List.mem_of_find?_eq_some hfind)
      have hnew : weightAt (rows.map out.sinkOutputs) name v k =
          streamWeight rows pair.1.2 v k := by
        rw [weightAt_of_items hnews hrows, hfind]
      have hold (k : Nat) : weightAt ((rows.map (pick places)).map c.sinkOutputs) name v k =
          streamWeight (rows.map (pick places)) pair.2.2 v k := by
        rw [weightAt_of_items holds hpicked, hfind]
      have hdistinct : ∀ row ∈ rows, ∀ (i : Nat) z, (pick places row)[i]? = some z →
          z.Distinct := fun row hrow =>
        hbatch.distinct_of_accumulates hc hsums (List.mem_map_of_mem hrow)
      rw [hnew, hold, h.streamWeight_sink (hpairs pair hmem).2 hdistinct v hk]
      cases k with
      | zero => rfl
      | succ k => rw [hbefore, hold]

/-- **Incrementalization is correct on whole runs.** It goes through on circuits whose sinks are
not read. If the result gets through a sequence of changes, these add up to whole tables, the old
circuit gets through every sequence of whole tables that they add up to, and what the result gives
at every step is the change of what the old circuit gives. Up to every step, the changes sum to the
output on the whole tables. -/
theorem run_incrementalize (hc : c.Built) (hsinks : c.SinksUnread) :
    ∃ c', c.incrementalize = .ok c' ∧ ∀ inputs deltas, c'.run inputs = .ok deltas →
      (∃ sums, c.Accumulates inputs sums) ∧
      ∀ sums, c.Accumulates inputs sums → ∃ outs, c.run sums = .ok outs ∧ ChangesOf outs deltas ∧
        ∀ name v k, k < outs.length →
          ((List.range (k + 1)).map (weightAt deltas name v)).sum = weightAt outs name v k := by
  obtain ⟨c', places, hpass, hc', hlength, hfound, hdiff⟩ := hc.incrementalize hsinks
  refine ⟨c', hpass, fun inputs deltas hrun => ?_⟩
  obtain ⟨rows, hrows, rfl⟩ := (run_eq_ok_iff hc'.ordered).mp hrun
  refine ⟨hrows.exists_accumulates hlength hfound, fun sums hsums => ?_⟩
  have hbatch := hrows.batch hlength hfound hsums
  have hchanges := hrows.changesOf hc.ordered hdiff hsums hbatch
  exact ⟨_, (run_eq_ok_iff hc.ordered).mpr ⟨_, hbatch, rfl⟩, hchanges,
    fun name v k hk => hchanges.sum name v hk⟩

/-- Which rows of a table are there, whatever their number. -/
def presence : Circuit :=
  (((empty "presence").push ⟨.source "t" .bool, [], none, .zset .bool, true⟩).push
    ⟨.distinct, [0], none, .zset .bool, false⟩).push
    ⟨.sink "v" "" none, [1], none, .zset .bool, false⟩

theorem built_presence : presence.Built := .push (.push (.push (.empty _) rfl) rfl) rfl

/-- A row that comes twice and goes twice appears once and disappears. -/
theorem run_incrementalize_presence :
    ∃ outs, presence.run [[("t", [(.bool true, 2)])], [("t", [])]] = .ok outs ∧
      ChangesOf outs [[("v", [(.bool true, 1)])], [("v", [(.bool true, -1)])]] := by
  have hsinks : presence.SinksUnread := by decide
  obtain ⟨c', hpass, hruns⟩ := run_incrementalize built_presence hsinks
  have hrun : presence.incrementalize.toOption.map (fun c =>
      c.run [[("t", [(.bool true, 2)])], [("t", [(.bool true, -2)])]]) =
        some (.ok [[("v", [(.bool true, 1)])], [("v", [(.bool true, -1)])]]) := rfl
  rw [hpass] at hrun
  obtain ⟨-, hbatch⟩ := hruns _ _ (Option.some.inj hrun)
  obtain ⟨outs, hbatch, hchanges, -⟩ := hbatch [[("t", [(.bool true, 2)])], [("t", [])]] {
    length_eq := rfl
    sum := by
      intro k tables hk table htable
      obtain rfl : table = "t" := List.mem_singleton.mp htable
      match k with
      | 0 =>
        obtain rfl := Option.some.inj hk
        rfl
      | 1 =>
        obtain rfl := Option.some.inj hk
        rfl
      | k + 2 => cases hk }
  exact ⟨outs, hbatch, hchanges⟩

end Circuit
end DeltaCircuit
