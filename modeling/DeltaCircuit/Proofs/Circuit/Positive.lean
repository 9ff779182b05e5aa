import DeltaCircuit.Proofs.Circuit.RemoveOperators
import DeltaCircuit.Proofs.Plan.Streams
import DeltaCircuit.Proofs.ZSetPositive

/-!
# Operators that give multisets

Which operators give nothing but positive weights, when the tables have nothing else? Most kinds
do so if all that they read has positive weights, and some do so whatever they read. Around an
aggregate of a single group a difference gets in between, and only four operators together show that
it does no harm. A derivation by these rules looks at kinds, inputs and functions, and not at
streams, so it can be carried over to larger circuits and to circuits without their dead code.

* `Tables.Positive` — tables or outputs of positive weights.
* `Circuit.GivesPositive` — the rules.
* `Circuit.GivesPositive.positive` — the rules are sound.
* `Circuit.GivesPositive.mono`, `Circuit.GivesPositive.copy` — derivations in other circuits.
* `Circuit.SinksPositive.step` — the outputs of a step.
-/

namespace DeltaCircuit

/-- Tables, or outputs of sinks, without weights of zero and below. -/
def Tables.Positive (tables : Tables) : Prop := ∀ given ∈ tables, given.2.Positive

/-! ### Single operators -/

namespace OperatorKind

/-- Kinds that give every value once. -/
def givesOnce : OperatorKind → Bool
  | distinct | aggregate _ _ => true
  | _ => false

/-- Kinds that give positive weights if they read nothing else. -/
def keepsPositive : OperatorKind → Bool
  | source _ _ | map _ | filter | index _ _ | join _ _ | sum | noop | sink _ _ _ => true
  | _ => false

end OperatorKind

namespace Operator

variable {op : Operator} {kind : OperatorKind} {row : Row} {tables : Tables} {z : ZSet}

theorem positive_of_givesOnce (hkind : kind.givesOnce = true)
    (h : op.Makes ⟨row, tables⟩ kind z) : z.Positive := by
  cases h with
  | distinct => exact ZSet.positive_of_once ZSet.once_distinct
  | aggregate _ _ hz => exact ZSet.positive_of_once (ZSet.once_aggregate hz)
  | _ => cases hkind

theorem positive_of_keepsPositive (hkind : kind.keepsPositive = true)
    (htables : tables.Positive) (hinputs : ∀ n x, op.slot row n = some x → x.Positive)
    (h : op.Makes ⟨row, tables⟩ kind z) : z.Positive := by
  cases h with
  | @source table =>
    cases hfound : Assoc.get? tables table with
    | none => exact ZSet.positive_nil
    | some given => exact htables _ (Assoc.mem_of_get? hfound)
  | map hx _ hz => exact (hinputs 0 _ hx).map hz
  | filter hx _ hz => exact (hinputs 0 _ hx).filterBy hz
  | index hx _ hz => exact (hinputs 0 _ hx).index hz
  | join hleft hright _ hz => exact (hinputs 0 _ hleft).join (hinputs 1 _ hright) hz
  | sum hxs hz =>
    refine List.foldlM_ok_induction_of_mem ZSet.Positive (fun x hmem sum next hsum hmerge => ?_)
      ZSet.positive_nil hz
    obtain ⟨n, -, hslot⟩ := hxs.exists_of_mem_right hmem
    exact hsum.merge (hinputs n x hslot) hmerge
  | noop hx | sink hx => exact hinputs 0 z hx
  | _ => cases hkind

end Operator

/-! ### The rules -/

namespace Circuit

/-- A map over an aggregate of rows that are indexed under one key. -/
inductive OneGroup (c : Circuit) (id : Nat) : Prop where
  | intro {folded indexed input : OperatorId} {keyType valueType indexType resultType output : Ty}
      {flatten fold key : Expr} {k : Value} :
    c.HasOperator id (.map output) [folded] (some flatten) →
    c.HasOperator folded (.aggregate keyType resultType) [indexed] (some fold) →
    c.HasOperator indexed (.index indexType valueType) [input] (some key) →
    (∀ row v, key.applyTo [row] = .ok v → ∃ u, v = .row [k, u]) → OneGroup c id

/-- The sum of an operator and of what is left of a row when a copy of it is taken away for every
row of the operator. -/
inductive OrDefault (c : Circuit) (aggregated id : Nat) : Prop where
  | intro {missing constant present : OperatorId} {literal : ZSetLiteral} {output : Ty}
      {f : Expr} {d : Value} :
    c.HasOperator id .sum [aggregated, missing] none →
    c.HasOperator missing .subtract [constant, present] none →
    c.HasOperator constant (.constant literal) [] none → literal.contents = .ok [(d, 1)] →
    c.HasOperator present (.map output) [aggregated] (some f) →
    (∀ row, f.applyTo [row] = .ok d) → OrDefault c aggregated id

/-- **The rules.** Operators that give positive weights if the tables have positive weights. -/
inductive GivesPositive (c : Circuit) : Nat → Prop where
  /-- Whatever it reads. -/
  | once {id : Nat} {kind : OperatorKind} {inputs : List OperatorId} {function : Option Expr} :
    c.HasOperator id kind inputs function → kind.givesOnce = true → GivesPositive c id
  /-- If all that it reads has positive weights. -/
  | combine {id : Nat} {kind : OperatorKind} {inputs : List OperatorId}
      {function : Option Expr} :
    c.HasOperator id kind inputs function → kind.keepsPositive = true →
    (∀ input ∈ inputs, GivesPositive c input) → GivesPositive c id
  /-- A sum with a difference that never takes away more than there is. -/
  | orDefault {aggregated id : Nat} :
    c.OneGroup aggregated → c.OrDefault aggregated id → GivesPositive c id

variable {c c' : Circuit} {id : Nat} {kind : OperatorKind} {inputs : List OperatorId}
  {function : Option Expr} {tables : Tables} {row : Row} {z : ZSet}

/-! ### Soundness -/

/-- A single group gives a single row at most. -/
theorem OneGroup.atMostOneRow (h : c.OneGroup id) (hrow : c.Fills 0 tables row) :
    ∃ z, row[id]? = some z ∧ z.AtMostOneRow := by
  obtain ⟨hmap, hfold, hindex, hkey⟩ := h
  obtain ⟨x, indexed, -, hindexed, hx⟩ := hrow.transform (Nat.zero_le _) hindex rfl
  obtain ⟨_, folded, hread, hfolded, haggregate⟩ := hrow.transform (Nat.zero_le _) hfold rfl
  obtain rfl := Option.some.inj (hindexed.symm.trans hread)
  obtain ⟨_, out, hread, hout, hmapped⟩ := hrow.transform (Nat.zero_le _) hmap rfl
  obtain rfl := Option.some.inj (hfolded.symm.trans hread)
  exact ⟨out, hout, (ZSet.atMostOneRow_aggregate (ZSet.key_of_index hkey hx) haggregate).map
    hmapped⟩

/-- The difference takes away the row, or nothing at all. -/
theorem OrDefault.positive {aggregated : Nat} (h : c.OrDefault aggregated id)
    (hrow : c.Fills 0 tables row) (hz : row[aggregated]? = some z) (hone : z.AtMostOneRow) :
    ∃ out, row[id]? = some out ∧ out.Positive := by
  obtain ⟨hsum, hsubtract, hconstant, hliteral, hmap, hf⟩ := h
  obtain ⟨one, hone', hcontents⟩ := hrow.constant (Nat.zero_le _) hconstant
  obtain rfl := Except.ok.inj (hliteral.symm.trans hcontents)
  obtain ⟨_, copies, hread, hcopies, hmapped⟩ := hrow.transform (Nat.zero_le _) hmap rfl
  obtain rfl := Option.some.inj (hz.symm.trans hread)
  obtain ⟨_, _, missing, hread, hread', hmissing, hdifference⟩ :=
    hrow.subtract (Nat.zero_le _) hsubtract
  obtain rfl := Option.some.inj (hone'.symm.trans hread)
  obtain rfl := Option.some.inj (hcopies.symm.trans hread')
  obtain ⟨out, hout, hadded⟩ :=
    hrow.sum (Nat.zero_le _) hsum (.cons hz (.cons hmissing .nil))
  exact ⟨out, hout, hone.orDefault hf hmapped hdifference hadded⟩

/-- **The rules are sound.** By induction on the derivation: in a row that is filled from tables of
positive weights, the operator has a stream of positive weights. -/
theorem GivesPositive.positive (h : c.GivesPositive id) (hrow : c.Fills 0 tables row)
    (htables : tables.Positive) : ∃ z, row[id]? = some z ∧ z.Positive := by
  induction h with
  | @once id kind inputs function hop hkind =>
    have hstateless : kind ≠ .integral ∧ kind ≠ .differential := by
      constructor <;> rintro rfl <;> cases hkind
    obtain ⟨op, out, -, -, hout, hmade⟩ :=
      hrow.makes (Nat.zero_le _) hop hstateless.1 hstateless.2
    exact ⟨out, hout, Operator.positive_of_givesOnce hkind hmade⟩
  | @combine id kind inputs function hop hkind _ ih =>
    have hstateless : kind ≠ .integral ∧ kind ≠ .differential := by
      constructor <;> rintro rfl <;> cases hkind
    obtain ⟨op, out, rfl, -, hout, hmade⟩ :=
      hrow.makes (Nat.zero_le _) hop hstateless.1 hstateless.2
    refine ⟨out, hout, Operator.positive_of_keepsPositive hkind htables (fun n x hx => ?_) hmade⟩
    obtain ⟨input, hinput, hx⟩ := Option.bind_eq_some_iff.mp hx
    obtain ⟨x', hx', hpositive⟩ := ih input (List.mem_of_getElem? hinput)
    obtain rfl := Option.some.inj (hx'.symm.trans hx)
    exact hpositive
  | orDefault hgroup hdefault =>
    obtain ⟨z, hz, hone⟩ := hgroup.atMostOneRow hrow
    exact hdefault.positive hrow hz hone

/-! ### Larger circuits -/

theorem HasOperator.mono (h : c.HasOperator id kind inputs function) (hextends : c'.Extends c) :
    c'.HasOperator id kind inputs function := by
  obtain ⟨op, hop, hrest⟩ := h
  exact ⟨op, hextends.get? hop, hrest⟩

theorem OneGroup.mono (h : c.OneGroup id) (hextends : c'.Extends c) : c'.OneGroup id := by
  obtain ⟨hmap, hfold, hindex, hkey⟩ := h
  exact .intro (hmap.mono hextends) (hfold.mono hextends) (hindex.mono hextends) hkey

theorem OrDefault.mono {aggregated : Nat} (h : c.OrDefault aggregated id)
    (hextends : c'.Extends c) : c'.OrDefault aggregated id := by
  obtain ⟨hsum, hsubtract, hconstant, hliteral, hmap, hf⟩ := h
  exact .intro (hsum.mono hextends) (hsubtract.mono hextends) (hconstant.mono hextends) hliteral
    (hmap.mono hextends) hf

/-- A derivation stays one when operators are appended. -/
theorem GivesPositive.mono (h : c.GivesPositive id) (hextends : c'.Extends c) :
    c'.GivesPositive id := by
  induction h with
  | once hop hkind => exact .once (hop.mono hextends) hkind
  | combine hop hkind _ ih => exact .combine (hop.mono hextends) hkind ih
  | orDefault hgroup hdefault => exact .orDefault (hgroup.mono hextends) (hdefault.mono hextends)

/-! ### Circuits without dead code -/

section

variable {origins : List OperatorId} {new i j : Nat}

theorem HasOperator.resolves (h : c.HasOperator i kind inputs function)
    (hkind : kind.isNoop = false) (hij : c.Resolves i j) : j = i := by
  obtain ⟨op, hop, rfl, -, -⟩ := h
  exact hij.self hop hkind

theorem OneGroup.resolves (h : c.OneGroup i) (hij : c.Resolves i j) : j = i := by
  obtain ⟨hmap, -, -, -⟩ := h
  exact hmap.resolves rfl hij

theorem OrDefault.resolves {aggregated : Nat} (h : c.OrDefault aggregated i)
    (hij : c.Resolves i j) : j = i := by
  obtain ⟨hsum, -, -, -, -, -⟩ := h
  exact hsum.resolves rfl hij

/-- The copy of an operator has its kind and its function, and reads what its inputs resolve to. -/
theorem HasOperator.copy (hcopies : List.Forall₂ (c.CopyOf origins) origins c'.operators)
    (h : c.HasOperator i kind inputs function) (hnew : origins[new]? = some i) :
    ∃ inputs', c'.HasOperator new kind inputs' function ∧
      List.Forall₂ (fun input place => ∃ j, c.Resolves input j ∧ origins[place]? = some j)
        inputs inputs' := by
  obtain ⟨op, hop, rfl, rfl, rfl⟩ := h
  rcases hcopies.getElem? new with ⟨hnone, -⟩ | ⟨old, copy, hold, hcopy, hof⟩
  · cases hnew.symm.trans hnone
  · obtain rfl := Option.some.inj (hnew.symm.trans hold)
    obtain ⟨op', inputs', hop', rfl, hinputs⟩ := hof
    obtain rfl := Option.some.inj (hop.symm.trans hop')
    exact ⟨inputs', ⟨_, hcopy, rfl, rfl, rfl⟩, hinputs⟩

theorem OneGroup.copy (hcopies : List.Forall₂ (c.CopyOf origins) origins c'.operators)
    (h : c.OneGroup i) (hnew : origins[new]? = some i) : c'.OneGroup new := by
  obtain ⟨hmap, hfold, hindex, hkey⟩ := h
  obtain ⟨_, hmap', hreads⟩ := hmap.copy hcopies hnew
  obtain _ | ⟨⟨j, hj, hfolded⟩, ⟨⟩⟩ := hreads
  obtain rfl := hfold.resolves rfl hj
  obtain ⟨_, hfold', hreads⟩ := hfold.copy hcopies hfolded
  obtain _ | ⟨⟨j, hj, hindexed⟩, ⟨⟩⟩ := hreads
  obtain rfl := hindex.resolves rfl hj
  obtain ⟨_, hindex', hreads⟩ := hindex.copy hcopies hindexed
  obtain _ | ⟨-, ⟨⟩⟩ := hreads
  exact .intro hmap' hfold' hindex' hkey

theorem OrDefault.copy (hcopies : List.Forall₂ (c.CopyOf origins) origins c'.operators)
    (hnodup : origins.Nodup) {aggregated : Nat} (h : c.OrDefault aggregated i)
    (hgroup : c.OneGroup aggregated) (hnew : origins[new]? = some i) :
    ∃ place, origins[place]? = some aggregated ∧ c'.OrDefault place new := by
  obtain ⟨hsum, hsubtract, hconstant, hliteral, hmap, hf⟩ := h
  obtain ⟨_, hsum', hreads⟩ := hsum.copy hcopies hnew
  obtain _ | ⟨⟨j, hj, haggregated⟩, _ | ⟨⟨j', hj', hmissing⟩, ⟨⟩⟩⟩ := hreads
  obtain rfl := hgroup.resolves hj
  obtain rfl := hsubtract.resolves rfl hj'
  obtain ⟨_, hsubtract', hreads⟩ := hsubtract.copy hcopies hmissing
  obtain _ | ⟨⟨j, hj, hconstant₁⟩, _ | ⟨⟨j', hj', hpresent⟩, ⟨⟩⟩⟩ := hreads
  obtain rfl := hconstant.resolves rfl hj
  obtain rfl := hmap.resolves rfl hj'
  obtain ⟨_, hconstant', ⟨⟩⟩ := hconstant.copy hcopies hconstant₁
  obtain ⟨_, hmap', hreads⟩ := hmap.copy hcopies hpresent
  obtain _ | ⟨⟨j, hj, hagain⟩, ⟨⟩⟩ := hreads
  obtain rfl := hgroup.resolves hj
  -- the sum and the map read one and the same copy
  obtain rfl := (List.getElem?_inj (List.getElem?_eq_some_iff.mp haggregated).1 hnodup).mp
    (haggregated.trans hagain.symm)
  exact ⟨_, haggregated, .intro hsum' hsubtract' hconstant' hliteral hmap' hf⟩

/-- A derivation for an operator becomes one for the copy of what it resolves to. -/
theorem GivesPositive.copy (hc : c.Built)
    (hcopies : List.Forall₂ (c.CopyOf origins) origins c'.operators) (hnodup : origins.Nodup)
    (h : c.GivesPositive i) (hij : c.Resolves i j) (hnew : origins[new]? = some j) :
    c'.GivesPositive new := by
  induction h generalizing j new with
  | @once i kind inputs function hop hkind =>
    -- it need not be known what the copy reads
    have hnoop : kind.isNoop = false := by
      cases kind <;> first
        | rfl
        | cases hkind
    obtain rfl := hop.resolves hnoop hij
    obtain ⟨_, hop', -⟩ := hop.copy hcopies hnew
    exact .once hop' hkind
  | @combine i kind inputs function hop hkind _ ih =>
    cases hnoop : kind.isNoop with
    | false =>
      obtain rfl := hop.resolves hnoop hij
      obtain ⟨inputs', hop', hinputs⟩ := hop.copy hcopies hnew
      refine .combine hop' hkind fun place hplace => ?_
      obtain ⟨input, hinput, j, hj, horigin⟩ := hinputs.exists_of_mem_right hplace
      exact ih input hinput hj horigin
    | true =>
      -- a no-op has no copy; what it reads resolves to the same operator
      obtain ⟨op, hop, rfl, rfl, -⟩ := hop
      obtain ⟨-, input, other, hinputs, -, hother, -⟩ :=
        hc.relay hop (OperatorKind.isRelay_of_isNoop hnoop)
      exact ih input (hinputs ▸ List.mem_singleton_self _) (hij.of_noop hop hnoop hinputs) hnew
  | orDefault hgroup hdefault =>
    obtain rfl := hdefault.resolves hij
    obtain ⟨place, hplace, hdefault'⟩ := hdefault.copy hcopies hnodup hgroup hnew
    exact .orDefault (hgroup.copy hcopies hplace) hdefault'

end

/-! ### Steps -/

/-- All sinks give positive weights. -/
def SinksPositive (c : Circuit) : Prop :=
  ∀ (id : Nat) op name, c.get? id = some op → op.kind.sinkName? = some name → c.GivesPositive id

theorem SinksPositive.push {op : Operator} (h : c.SinksPositive)
    (hop : ∀ name, op.kind.sinkName? = some name → (c.push op).GivesPositive c.size) :
    (c.push op).SinksPositive := by
  intro id other name hother hname
  rcases get?_push_eq_some hother with hold | ⟨rfl, rfl⟩
  · exact (h id other name hold hname).mono (c.extends_push op)
  · exact hop name hname

/-- Without dead code, the sinks are copies of sinks. -/
theorem SinksPositive.copy {origins : List OperatorId} (h : c.SinksPositive) (hc : c.Built)
    (hcopies : List.Forall₂ (c.CopyOf origins) origins c'.operators) (hnodup : origins.Nodup) :
    c'.SinksPositive := by
  intro new copy name hcopy hname
  rcases hcopies.getElem? new with ⟨-, hnone⟩ | ⟨old, copy', hold, hcopy', hof⟩
  · cases hcopy.symm.trans hnone
  · obtain rfl := Option.some.inj (hcopy.symm.trans hcopy')
    obtain ⟨op, inputs, hop, rfl, -⟩ := hof
    have hnoop : op.kind.isNoop = false := by
      cases hkind : op.kind with
      | noop =>
        have hnone : op.kind.sinkName? = none := by rw [hkind]; rfl
        cases hnone.symm.trans hname
      | _ => rfl
    exact (h old op name hop hname).copy hc hcopies hnodup (.here hop hnoop) hold

/-- **Outputs.** If every sink of a circuit gives positive weights, a step on tables of positive
weights, from any state, has outputs of positive weights. -/
theorem SinksPositive.step (hsinks : c.SinksPositive) {outs : Tables} {state state' : RunState}
    (htables : tables.Positive)
    (hstep : c.step tables state = (.ok outs, state')) : outs.Positive := by
  unfold Circuit.step at hstep
  split at hstep
  · next row _ hrun =>
    obtain ⟨hout, -⟩ := Prod.mk.inj hstep
    obtain rfl := Except.ok.inj hout
    obtain ⟨-, hrow⟩ := @fills_of_runOperators _ _ _ [] _ _ 0 rfl hrun
    -- the row has a stream for every operator
    have hlength : row.length = c.size := by
      obtain ⟨streams, rfl, hstreams⟩ := runOperators_eq_ok hrun
      rw [← hstreams.length_eq, length_numbered]
    rw [sinkOutputs_eq c row hlength]
    intro out hout
    -- an output is what some sink reports of the row
    obtain ⟨⟨name, id⟩, hreporter, rfl⟩ := List.mem_map.mp (Assoc.mem_of_mem_setAll hout)
    obtain ⟨op, hop, hname⟩ := mem_reporters.mp hreporter
    obtain ⟨z, hz, hpositive⟩ := (hsinks id op name hop hname).positive hrow htables
    show ((row[id]?).getD []).Positive
    rw [hz]
    exact hpositive
  · cases (Prod.mk.inj hstep).1

end Circuit
end DeltaCircuit
