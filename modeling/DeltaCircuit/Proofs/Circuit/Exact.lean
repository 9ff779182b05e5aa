import DeltaCircuit.Proofs.Circuit.Streams
import DeltaCircuit.Proofs.ZSetSum

/-!
# Streams without floating point numbers

If the tables hold exact values, and the functions and constants of a circuit are exact, every
stream holds exact values: what an operator gives it has read, or its function has made of that.
Aggregates are left out here.

* `Operator.Exact`, `Circuit.Exact` — operators and circuits that bring in no floating point number.
* `Operator.exact_of_statelessOutput`, `Operator.exact_of_outputAfter` — one operator.
* `Circuit.Emits.exact`, `Circuit.Traces.exact` — a whole row and a whole run.
* `Circuit.ExactInputs`, `Circuit.ExactRun` — runs of a circuit on exact maps.
-/

namespace DeltaCircuit

namespace ZSet

variable {z left right out : ZSet} {f : Expr} {v : Value} {w : Int}

/-! ### Operations -/

theorem Exact.add (hz : z.Exact) (hv : v.isExact = true) (h : z.add v w = .ok out) :
    out.Exact := by
  intro entry hentry
  rcases Weighted.eq_or_exists_of_mem_add? (add_eq_ok.mp h) hentry with heq | ⟨other, hother, heq⟩
  · rw [heq]
    exact hv
  · rw [← heq]
    exact hz other hother

theorem Exact.merge (hz : z.Exact) {other : ZSet} (ho : other.Exact) {sign : Int}
    (h : z.merge other sign = .ok out) : out.Exact := by
  have hmerge := merge_eq_ok.mp h
  clear h
  induction other generalizing z with
  | nil =>
    obtain rfl : z = out := by simpa [ZSet.mergeFrom] using hmerge
    exact hz
  | cons entry other ih =>
    obtain ⟨hentry, ho⟩ := List.forall_mem_cons.mp ho
    obtain ⟨next, hadd, hrest, -⟩ := mergeFrom_cons_eq_ok.mp hmerge
    exact ih (hz.add hentry hadd) ho hrest

theorem exact_nil : Exact [] := nofun

theorem exact_of_accumulate {zs : List ZSet} (hzs : ∀ z ∈ zs, z.Exact)
    (h : accumulate zs = .ok out) : out.Exact :=
  List.foldlM_ok_induction_of_mem Exact (fun z hz _ _ hsum hmerge => hsum.merge (hzs z hz) hmerge)
    exact_nil h

theorem exact_of_map (hf : f.Exact) (hz : z.Exact) (h : z.map f = .ok out) : out.Exact := by
  refine List.foldlM_ok_induction_of_mem Exact (fun entry hentry found next hfound hnext => ?_)
    exact_nil h
  obtain ⟨value, hvalue, hadd⟩ := Except.bind_eq_ok.mp hnext
  have hexact : value.isExact = true :=
    hf.applyTo_exact (List.forall_mem_singleton.mpr (hz entry hentry)) hvalue
  exact hfound.add hexact hadd

theorem exact_of_filterBy (hz : z.Exact) (h : z.filterBy f = .ok out) : out.Exact := by
  refine List.foldlM_ok_induction_of_mem Exact (fun entry hentry found next hfound hnext => ?_)
    exact_nil h
  obtain ⟨kept, -, hadd⟩ := Except.bind_eq_ok.mp hnext
  split at hadd
  · exact hfound.add (hz entry hentry) hadd
  · exact Except.pure_eq_ok.mp hadd ▸ hfound

theorem exact_of_join (hf : f.Exact) (hleft : left.Exact) (hright : right.Exact)
    (h : left.join right f = .ok out) : out.Exact := by
  refine List.foldlM_ok_induction_of_mem Exact (fun l hl found next hfound hnext => ?_)
    exact_nil h
  obtain ⟨leftPair, hleftPair, hone⟩ := Except.bind_eq_ok.mp hnext
  refine List.foldlM_ok_induction_of_mem Exact (fun r hr found next hfound hnext => ?_)
    hfound hone
  obtain ⟨rightPair, hrightPair, hnext⟩ := Except.bind_eq_ok.mp hnext
  dsimp only at hnext
  split at hnext
  · obtain ⟨joined, hjoined, hadd⟩ := Except.bind_eq_ok.mp hnext
    split at hadd
    · -- the parts of exact pairs are exact
      have hparts {u : Value} {pair : Value × Value} (hu : u.isExact = true)
          (hpair : u.pair = .ok pair) : pair.1.isExact = true ∧ pair.2.isExact = true := by
        unfold Value.pair at hpair
        split at hpair
        · obtain rfl := Except.ok.inj hpair
          simpa [Value.isExact, Value.isExactAll] using hu
        · cases hpair
      obtain ⟨hkey, hcontent⟩ := hparts (hleft l hl) hleftPair
      obtain ⟨-, hcontent'⟩ := hparts (hright r hr) hrightPair
      refine hfound.add (hf.applyTo_exact (fun arg harg => ?_) hjoined) hadd
      rcases List.mem_cons.mp harg with rfl | harg
      · exact hkey
      · rcases List.mem_cons.mp harg with rfl | harg
        · exact hcontent
        · exact List.mem_singleton.mp harg ▸ hcontent'
    · cases hadd
  · exact Except.pure_eq_ok.mp hnext ▸ hfound

theorem exact_distinct (hz : z.Exact) : z.distinct.Exact := by
  have hfold (entries : List (Value × Int)) (hentries : Exact entries) (found : ZSet)
      (hfound : found.Exact) : Exact (entries.foldl
        (fun out entry => if 0 < entry.2 then out.put entry.1 1 else out) found) := by
    induction entries generalizing found with
    | nil => exact hfound
    | cons entry entries ih =>
      obtain ⟨hentry, hentries⟩ := List.forall_mem_cons.mp hentries
      rw [List.foldl_cons]
      refine ih hentries _ ?_
      split
      · intro other hother
        rcases Weighted.mem_put hother with heq | ⟨old, hold, heq⟩
        · rw [heq]
          exact hentry
        · rw [← heq]
          exact hfound old hold
      · exact hfound
  exact hfold z hz [] exact_nil

end ZSet

theorem ZSetLiteral.exact_of_contents {literal : ZSetLiteral} {z : ZSet}
    (hliteral : ∀ entry ∈ literal.entries, entry.1.Exact) (h : literal.contents = .ok z) :
    z.Exact := by
  refine List.foldlM_ok_induction_of_mem ZSet.Exact
    (fun entry hentry found next hfound hnext => ?_) ZSet.exact_nil h
  obtain ⟨value, hvalue, hadd⟩ := Except.bind_eq_ok.mp hnext
  exact hfound.add ((hliteral entry hentry).evaluate_exact hvalue) hadd

/-! ### Operators -/

/-- An operator whose function and whose constant are exact. -/
structure Operator.Exact (op : Operator) : Prop where
  function : ∀ f, op.function = some f → f.Exact
  constant : ∀ literal, op.kind = .constant literal → ∀ entry ∈ literal.entries, entry.1.Exact

/-- Whether a kind folds groups. -/
def OperatorKind.isAggregate : OperatorKind → Bool
  | .aggregate _ _ => true
  | _ => false

namespace Operator

variable {op : Operator} {s : Streams} {id : Nat} {z : ZSet}

/-- From exact values, an exact operator makes exact values. -/
theorem exact_of_statelessOutput (hop : op.Exact) (hkind : op.kind.isAggregate = false)
    (hinputs : ∀ n x, op.slot s.outputs n = some x → x.Exact)
    (htable : ∀ table, op.kind.table? = some table →
      ((Assoc.get? s.tables table).getD [] : ZSet).Exact)
    (h : op.statelessOutput s id = .ok z) : z.Exact := by
  rw [statelessOutput_eq_ok] at h
  generalize hcase : op.kind = kind at h hkind
  cases h with
  | source => exact htable _ (by rw [hcase]; rfl)
  | constant hz => exact ZSetLiteral.exact_of_contents (hop.constant _ hcase) hz
  | map hx hf hz => exact ZSet.exact_of_map (hop.function _ hf) (hinputs 0 _ hx) hz
  | filter hx _ hz => exact ZSet.exact_of_filterBy (hinputs 0 _ hx) hz
  | index hx hf hz =>
    exact ZSet.exact_of_map (hop.function _ hf) (hinputs 0 _ hx) (ZSet.map_of_index hz)
  | aggregate => cases hkind
  | join hleft hright hf hz =>
    exact ZSet.exact_of_join (hop.function _ hf) (hinputs 0 _ hleft) (hinputs 1 _ hright) hz
  | sum hxs hz =>
    refine ZSet.exact_of_accumulate (fun x hx => ?_) hz
    obtain ⟨n, -, hslot⟩ := hxs.exists_of_mem_right hx
    exact hinputs n x hslot
  | subtract hleft hright hz =>
    obtain ⟨copy, hcopy, hz⟩ := Except.bind_eq_ok.mp hz
    exact (ZSet.exact_nil.merge (hinputs 0 _ hleft) hcopy).merge (hinputs 1 _ hright) hz
  | negate hx hz => exact ZSet.exact_nil.merge (hinputs 0 _ hx) hz
  | distinct hx => exact ZSet.exact_distinct (hinputs 0 _ hx)
  | integral hx | differential hx | noop hx | sink hx => exact hinputs 0 z hx

theorem exact_of_outputAfter {past : List Row} (hop : op.Exact)
    (hkind : op.kind.isAggregate = false)
    (hinputs : ∀ n x, op.slot s.outputs n = some x → x.Exact)
    (hhistory : ∀ x ∈ op.history past, x.Exact)
    (htable : ∀ table, op.kind.table? = some table →
      ((Assoc.get? s.tables table).getD [] : ZSet).Exact)
    (h : op.outputAfter past s id = .ok z) : z.Exact := by
  obtain ⟨x, hx, h⟩ := Except.bind_eq_ok.mp h
  have hexact : x.Exact := exact_of_statelessOutput hop hkind hinputs htable hx
  split at h
  · obtain ⟨sum, hsum, hmerge⟩ := Except.bind_eq_ok.mp h
    exact (ZSet.exact_of_accumulate hhistory hsum).merge hexact hmerge
  · split at h
    · exact Except.pure_eq_ok.mp h ▸ hexact
    · next previous hlast =>
      exact hexact.merge (hhistory previous (List.mem_of_getLast? hlast)) h
  · exact Except.pure_eq_ok.mp h ▸ hexact

end Operator

namespace Circuit

/-- A circuit that brings in no floating point number. -/
def Exact (c : Circuit) : Prop := ∀ op ∈ c.operators, op.Exact

/-- **Rows of exact values.** If the tables and the rows before are exact, so is what every operator
gives. -/
theorem Emits.exact {c : Circuit} {past : List Row} {tables : Tables} {row : Row}
    (hrow : c.Emits past tables row) (hc : c.Ordered) (hexact : c.Exact)
    (hkinds : ∀ op ∈ c.operators, op.kind.isAggregate = false)
    (hpast : ∀ before ∈ past, ∀ (id : Nat) z, before[id]? = some z → z.Exact)
    (htables : ∀ table ∈ c.tables, (tables.contents table).Exact)
    {id : Nat} {z : ZSet} (hz : row[id]? = some z) : z.Exact := by
  induction id using Nat.strong_induction_on generalizing z with
  | h id ih =>
    have hlt : id < c.size := hrow.length_eq ▸ (List.getElem?_eq_some_iff.mp hz).1
    obtain ⟨op, hop⟩ := exists_get?_of_lt hlt
    have hmem : op ∈ c.operators := List.mem_of_getElem? hop
    have htable : ∀ table, op.kind.table? = some table →
        ((Assoc.get? tables table).getD [] : ZSet).Exact :=
      fun table htable => htables table (mem_tables hop htable)
    have hout : op.outputAfter past ⟨row, tables⟩ id = .ok z := hrow.output id op z hop hz
    refine Operator.exact_of_outputAfter (hexact op hmem) (hkinds op hmem) (fun n x hx => ?_)
      (fun x hx => ?_) htable hout
    -- what the operator reads stands in front of it
    · obtain ⟨input, hinput, hx⟩ := Option.bind_eq_some_iff.mp hx
      exact ih input (hc id op hop input (List.mem_of_getElem? hinput)) hx
    -- what it has read is part of an earlier row, or nothing
    · obtain ⟨before, hbefore, rfl⟩ := List.mem_map.mp hx
      cases hslot : op.slot before 0 with
      | none => exact ZSet.exact_nil
      | some x =>
        obtain ⟨input, -, hx⟩ := Option.bind_eq_some_iff.mp hslot
        exact hpast before hbefore input x hx

/-- **Runs on exact values.** If the tables of all steps are exact, so is every stream. -/
theorem Traces.exact {c : Circuit} {inputs : List Tables} {rows : List Row}
    (h : c.Traces [] inputs rows) (hc : c.Ordered) (hexact : c.Exact)
    (hkinds : ∀ op ∈ c.operators, op.kind.isAggregate = false)
    (htables : ∀ tables ∈ inputs, ∀ table ∈ c.tables, (tables.contents table).Exact)
    (id k : Nat) : (stream rows id k).Exact := by
  induction k using Nat.strong_induction_on generalizing id with
  | h k ih =>
    unfold stream
    cases hrow : rows[k]? with
    | none => exact ZSet.exact_nil
    | some row =>
      cases hz : row[id]? with
      | none =>
        rw [Option.getD_some, hz]
        exact ZSet.exact_nil
      | some z =>
        rw [Option.getD_some, hz, Option.getD_some]
        have hlt : k < inputs.length := h.length_eq ▸ (List.getElem?_eq_some_iff.mp hrow).1
        have hgiven : inputs[k]? = some inputs[k] := List.getElem?_eq_getElem hlt
        refine (h.emits hgiven hrow).exact hc hexact hkinds (fun before hbefore id z hz => ?_)
          (htables _ (List.mem_of_getElem? hgiven)) hz
        -- the rows before are exact by induction
        obtain ⟨i, hi, rfl⟩ := List.mem_iff_getElem.mp hbefore
        simp only [List.nil_append, List.length_take, List.getElem_take] at hi hz
        have hearlier := ih i (by omega) id
        rwa [stream_eq (by omega) hz] at hearlier

/-! ### Runs on exact maps -/

/-- Tables of exact maps at every step. -/
def ExactInputs (c : Circuit) (inputs : List Tables) : Prop :=
  ∀ tables ∈ inputs, ∀ table ∈ c.tables, (tables.contents table).ExactMap

instance (c : Circuit) (inputs : List Tables) : Decidable (c.ExactInputs inputs) :=
  inferInstanceAs (Decidable (∀ tables ∈ inputs, ∀ table ∈ c.tables, _))

/-- A run whose streams are made of exact maps. -/
structure ExactRun (c : Circuit) (inputs : List Tables) (rows : List Row) : Prop where
  traces : c.Traces [] inputs rows
  exactMap : ∀ id k, (stream rows id k).ExactMap

theorem ExactRun.distinct {c : Circuit} {inputs : List Tables} {rows : List Row}
    (h : c.ExactRun inputs rows) (id k : Nat) : (stream rows id k).Distinct :=
  (h.exactMap id k).distinct

theorem ExactInputs.run {c : Circuit} {inputs : List Tables} {rows : List Row}
    (hinputs : c.ExactInputs inputs) (hc : c.Ordered) (hexact : c.Exact)
    (hkinds : ∀ op ∈ c.operators, op.kind.isAggregate = false) (h : c.Traces [] inputs rows) :
    c.ExactRun inputs rows where
  traces := h
  exactMap id k := {
    distinct := h.distinct hc
      (fun tables hmem table htable => (hinputs tables hmem table htable).distinct) id k
    exact := h.exact hc hexact hkinds
      (fun tables hmem table htable => (hinputs tables hmem table htable).exact) id k }

end Circuit
end DeltaCircuit
