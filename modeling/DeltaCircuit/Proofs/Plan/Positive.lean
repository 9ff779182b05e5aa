import DeltaCircuit.Proofs.Circuit.Positive
import DeltaCircuit.Proofs.Circuit.SimplifiedCalls
import DeltaCircuit.Proofs.Plan.Aggregate
import DeltaCircuit.Proofs.Plan.Lockstep

/-!
# Plans give multisets

The operators that a plan is lowered to give positive weights if the tables do. A difference comes
up in two places. In an `EXCEPT` it is followed by a `distinct`, which leaves nothing of what is
negative. Behind an aggregate without group keys it takes away copies of one row for at most one
group, and the row was there before.

Everything is said about the circuit with simplified functions, since this is the one that is run.
Simplification could do harm in that second place only, where what two functions give matters.

* `direct_groupFunction`, `direct_constantFunction` — these functions are calls of which
  simplification keeps all results.
* `Lower.Yields` — what holds of whatever a step of lowering gives.
* `Lower.yieldsPositive_setOp`, `Lower.yieldsPositive_aggregate` — nodes with differences.
* `Plan.yieldsPositive_lower` — plans, by induction.
-/

namespace DeltaCircuit

open ExceptT (gives_bind gives_pure gives_throw)

/-! ### Functions around an aggregate of a single group -/

section

variable {s : Schema} {f e : Expr}

theorem Expr.Direct.of_literal {value : Option Literal} {type : Option Ty} :
    (Expr.ofForm type (.literal value)).Direct :=
  .leaf ⟨nofun, nofun⟩ rfl

/-- A closure over a row neither casts nor assigns if its body does not. -/
theorem direct_rowFunction {rowType : Ty} {build : Expr → Except CompileError Expr}
    (h : rowFunction rowType build = .ok f)
    (hbuild : ∀ body, build (Expr.var "t" (.byRef rowType)) = .ok body → body.Direct) :
    f.Direct := by
  obtain ⟨body, hbody, hclosure⟩ := Except.bind_eq_ok.mp h
  obtain rfl := Expr.closure_eq_ok (ofTerm_eq_ok.mp hclosure)
  exact .of_parts ⟨nofun, nofun⟩ (hbuild body hbody)

/-- A group key is made of columns as they are. -/
theorem direct_groupFunction {columns : List Nat} (h : groupFunction s columns = .ok f) :
    f.Direct := by
  have hvar : s.rowVar.Direct := .leaf ⟨nofun, nofun⟩ rfl
  refine direct_rowFunction h fun body hbody => ?_
  obtain ⟨parts, hparts, hbody⟩ := Except.bind_eq_ok.mp (ofTerm_eq_ok.mp hbody)
  obtain ⟨key, hkey, hbody⟩ := Except.bind_eq_ok.mp hbody
  obtain ⟨row, hrow, hpair⟩ := Except.bind_eq_ok.mp hbody
  obtain ⟨_, -, rfl⟩ := Expr.tuple_eq_ok hkey
  obtain ⟨_, _, _, -, -, rfl⟩ := Expr.deref_eq_ok hrow
  obtain ⟨_, -, rfl⟩ := Expr.rawTuple_eq_ok hpair
  have hfields : ∀ part ∈ parts, part.Direct := by
    refine List.ensures_mapM (fun column _ field hfield => ?_) parts hparts
    obtain ⟨_, rfl⟩ := Expr.field_eq_ok hfield
    exact .of_parts ⟨nofun, nofun⟩ hvar
  exact .of_parts ⟨nofun, nofun⟩
    ⟨.node ⟨nofun, nofun⟩ hfields, .of_parts ⟨nofun, nofun⟩ hvar⟩

/-- The aggregates of no rows are literals. -/
theorem AggregateCall.direct_emptyValue {call : AggregateCall} (h : call.emptyValue = .ok e) :
    e.Direct := by
  unfold AggregateCall.emptyValue at h
  split at h
  · have hzero := ofTerm_eq_ok.mp h
    unfold Ty.zero Ty.constant at hzero
    split at hzero
    · exact Expr.literal_eq_ok hzero ▸ .of_literal
    · exact Expr.literal_eq_ok hzero ▸ .of_literal
    · exact Expr.literal_eq_ok hzero ▸ .of_literal
    · cases hzero
  · split at h
    · obtain ⟨_, -, hnull⟩ := Except.bind_eq_ok.mp (ofTerm_eq_ok.mp h)
      exact Expr.literal_eq_ok hnull ▸ .of_literal
    · cases h

/-- The row of no rows is a tuple of literals. -/
theorem direct_constantFunction {calls : List AggregateCall} (he : emptyGroupRow calls = .ok e)
    (h : constantFunction s e = .ok f) : f.Direct := by
  refine direct_rowFunction h fun body hbody => ?_
  obtain rfl := Except.ok.inj hbody
  obtain ⟨values, hvalues, htuple⟩ := Except.bind_eq_ok.mp he
  obtain ⟨_, -, rfl⟩ := Expr.tuple_eq_ok (ofTerm_eq_ok.mp htuple)
  exact .node ⟨nofun, nofun⟩
    (List.ensures_mapM (fun _ _ _ => AggregateCall.direct_emptyValue) values hvalues)

/-- Without columns, the simplified function gives all rows one key. -/
theorem simplified_groupFunction {number : Nat} {row v : Value}
    (h : groupFunction s [] = .ok f) (hv : (f.simplified number).applyTo [row] = .ok v) :
    v = .row [.row [], row] := by
  have hcall : f.applyTo [row] = .ok (.row [.row [], row]) :=
    (groupFunction_applyTo h).mpr ⟨[], rfl, rfl⟩
  have hbuilt : f.Built := (ensures_groupFunction [] f h).built
  have hsimplified := (direct_groupFunction h).applyTo_simplified hbuilt number hcall
  exact Except.ok.inj (hv.symm.trans hsimplified)

/-- The simplified function gives the aggregates of no rows, whatever the row is. -/
theorem simplified_constantFunction {calls : List AggregateCall} {row : Value}
    (he : emptyGroupRow calls = .ok e) (h : constantFunction s e = .ok f) (number : Nat) :
    (f.simplified number).applyTo [row] = .ok (.row (calls.map AggregateCall.emptyResult)) := by
  have hbuilt : f.Built := (ensures_constantFunction (ensures_emptyGroupRow calls e he) f h).built
  exact (direct_constantFunction he h).applyTo_simplified hbuilt number
    (constantFunction_applyTo h (emptyGroupRow_eq_ok he))

end

/-! ### Steps of lowering -/

/-- The sources of all tables give positive weights. -/
def Lowering.TablesPositive (number : Nat) (t : Lowering) : Prop :=
  ∀ entry ∈ t.tables, (t.circuit.simplifiedFrom number).GivesPositive entry.2.source

/-- What has grown has the simplified operators from before. -/
theorem Lowering.Grows.extends {t t' : Lowering} (h : t.Grows t') (number : Nat) :
    (t'.circuit.simplifiedFrom number).Extends (t.circuit.simplifiedFrom number) := by
  obtain ⟨hcircuit, -⟩ := h
  generalize t'.circuit = c at hcircuit ⊢
  -- operators are appended one at a time, and each is simplified under the number of its place
  induction hcircuit with
  | refl => exact .refl _
  | push _ _ ih =>
    rw [Circuit.simplifiedFrom_push]
    exact (Circuit.extends_push _ _).trans ih

theorem Circuit.HasOperator.simplifiedFrom {c : Circuit} {id : Nat} {kind : OperatorKind}
    {inputs : List OperatorId} {function : Option Expr}
    (h : c.HasOperator id kind inputs function) (number : Nat) :
    (c.simplifiedFrom number).HasOperator id kind inputs
      (function.map (Expr.simplified (number + id))) := by
  obtain ⟨op, hop, rfl, rfl, rfl⟩ := h
  refine ⟨op.simplified (number + id), ?_, rfl, rfl, rfl⟩
  show (c.numbered.map fun entry => entry.2.simplified (number + entry.1))[id]? = _
  rw [List.getElem?_map, getElem?_numbered, hop]
  rfl

theorem Lowering.TablesPositive.mono {number : Nat} {t t' : Lowering}
    (h : t.TablesPositive number) (hgrows : t.Grows t') : t'.TablesPositive number := by
  intro entry hentry
  rw [hgrows.tables] at hentry
  exact (h entry hentry).mono (hgrows.extends number)

namespace Lower

variable {α β : Type} {t : Lowering} {x : Lower α} {P : Lowering → α → Prop}
  {Q : Lowering → β → Prop} {R : Lowering → α → Prop}

/-- Whatever the step gives, it has appended operators in between only, and what it gives has a
property in the state that it leads to. -/
def Yields (t : Lowering) (x : Lower α) (P : Lowering → α → Prop) : Prop :=
  ∀ a t', x.Gives t a t' → t.Grows t' ∧ P t' a

theorem Yields.imp (hx : Yields t x P) (h : ∀ t' a, t.Grows t' → P t' a → R t' a) :
    Yields t x R := by
  intro a t' hgives
  obtain ⟨hgrows, ha⟩ := hx a t' hgives
  exact ⟨hgrows, h t' a hgrows ha⟩

theorem yields_pure {a : α} (h : P t a) : Yields t (pure a) P := by
  intro b t' hgives
  obtain ⟨rfl, rfl⟩ := gives_pure.mp hgives
  exact ⟨.refl t, h⟩

theorem yields_throw {e : CompileError} : Yields t (throw e) P :=
  fun _ _ hgives => (gives_throw.mp hgives).elim

theorem Yields.bind {g : α → Lower β} (hx : Yields t x P)
    (hg : ∀ t' a, t.Grows t' → P t' a → Yields t' (g a) Q) : Yields t (x >>= g) Q := by
  intro b t' hgives
  obtain ⟨a, middle, ha, hb⟩ := gives_bind.mp hgives
  obtain ⟨hgrows, hP⟩ := hx a middle ha
  obtain ⟨hgrows', hQ⟩ := hg middle a hgrows hP b t' hb
  exact ⟨hgrows.trans hgrows', hQ⟩

theorem yields_ofExcept {result : Except CompileError α} :
    Yields t (ofExcept result) fun t' a => t' = t ∧ result = .ok a := by
  intro a t' hgives
  obtain ⟨hresult, rfl⟩ := gives_ofExcept.mp hgives
  exact ⟨.refl t, rfl, hresult⟩

/-- A result that needs no circuit comes before the rest. -/
theorem Yields.ofExcept_bind {result : Except CompileError α} {g : α → Lower β}
    (hg : ∀ a, result = .ok a → Yields t (g a) Q) : Yields t (ofExcept result >>= g) Q :=
  yields_ofExcept.bind fun _ a _ h => h.1 ▸ hg a h.2

theorem yields_report (d : Diagnostic) : Yields t (report d) fun _ _ => True := by
  rintro _ _ ⟨⟩
  exact ⟨⟨.refl _, rfl⟩, trivial⟩

theorem yields_foldlM {step : β → α → Lower β}
    (hstep : ∀ t b a, Yields t (step b a) fun _ _ => True) (as : List α) (init : β) :
    Yields t (as.foldlM step init) fun _ _ => True := by
  induction as generalizing t init with
  | nil => exact yields_pure trivial
  | cons a as ih =>
    rw [List.foldlM_cons]
    exact (hstep t init a).bind fun _ next _ _ => ih next

/-! ### Appended operators -/

variable {number : Nat} {kind : OperatorKind} {inputs : List OperatorId}
  {function : Option Expr} {input left right : OperatorId} {schema source target : Schema}

/-- The operator is there, with its function simplified. -/
theorem yields_append (number : Nat) (hkind : kind.IsInternal) :
    Yields t (append (·.build kind inputs function)) fun t' id =>
      (t'.circuit.simplifiedFrom number).HasOperator id kind inputs
        (function.map (Expr.simplified (number + id))) := by
  intro id t' hgives
  obtain ⟨-, hop⟩ := hasOperator_append hgives
  obtain ⟨-, op, rfl, -, -, rfl⟩ := gives_append hgives
  exact ⟨⟨.push (.refl _) hkind, rfl⟩, hop.simplifiedFrom number⟩

theorem yields_append_any (hkind : kind.IsInternal) :
    Yields t (append (·.build kind inputs function)) fun _ _ => True :=
  (yields_append 0 hkind).imp fun _ _ _ _ => trivial

/-- With simplified functions, the operator that the step gives has positive weights. -/
def YieldsPositive (number : Nat) (t : Lowering) (x : Lower OperatorId) : Prop :=
  Yields t x fun t' id => (t'.circuit.simplifiedFrom number).GivesPositive id

theorem yieldsPositive_once (hkind : kind.IsInternal) (honce : kind.givesOnce = true) :
    YieldsPositive number t (append (·.build kind inputs function)) :=
  (yields_append number hkind).imp fun _ _ _ hop => .once hop honce

theorem yieldsPositive_combine (hkind : kind.IsInternal) (hkeeps : kind.keepsPositive = true)
    (hinputs : ∀ input ∈ inputs, (t.circuit.simplifiedFrom number).GivesPositive input) :
    YieldsPositive number t (append (·.build kind inputs function)) :=
  (yields_append number hkind).imp fun _ _ hgrows hop => .combine hop hkeeps fun input hinput =>
    (hinputs input hinput).mono (hgrows.extends number)

/-- An operator over one input. -/
theorem yieldsPositive_over (hkind : kind.IsInternal) (hkeeps : kind.keepsPositive = true)
    (hinput : (t.circuit.simplifiedFrom number).GivesPositive input) :
    YieldsPositive number t (append (·.build kind [input] function)) :=
  yieldsPositive_combine hkind hkeeps (by simpa using hinput)

/-! ### Nodes -/

theorem yieldsPositive_scan (htables : t.TablesPositive number) (table : String)
    (schema : Schema) : YieldsPositive number t (scan table schema) := by
  intro id t' hgives
  obtain ⟨rfl, found, hfound, -, rfl⟩ := gives_scan hgives
  exact ⟨.refl _, htables _ (Assoc.mem_of_get? hfound)⟩

section

variable (hinput : (t.circuit.simplifiedFrom number).GivesPositive input)

include hinput

theorem yieldsPositive_filter (condition : ScalarExpr) :
    YieldsPositive number t (filter input schema condition) :=
  .ofExcept_bind fun _ _ => yieldsPositive_over ⟨rfl, rfl⟩ rfl hinput

theorem yieldsPositive_project (exprs : List ScalarExpr) :
    YieldsPositive number t (project input source exprs target) :=
  .ofExcept_bind fun _ _ => yieldsPositive_over ⟨rfl, rfl⟩ rfl hinput

theorem yieldsPositive_conform : YieldsPositive number t (conform input source target) := by
  unfold conform
  split
  · exact yields_pure hinput
  · exact .ofExcept_bind fun _ _ => yieldsPositive_over ⟨rfl, rfl⟩ rfl hinput

theorem yieldsPositive_indexByKey (columns : List Nat) (types : List Ty) :
    YieldsPositive number t (indexByKey input schema columns types) := by
  have hindex : ∀ t' i, t.Grows t' → (t'.circuit.simplifiedFrom number).GivesPositive i →
      YieldsPositive number t' (do
        append (·.addIndex i (← ofExcept (keyFunction schema columns types)) (.tuple types)
          schema.rowType)) := fun t' i _ hi =>
    .ofExcept_bind fun _ _ => yieldsPositive_over ⟨rfl, rfl⟩ rfl hi
  unfold indexByKey
  dsimp only
  split
  · exact hindex t input (.refl t) hinput
  · -- some column of the key admits NULL, and rows with NULL there are filtered out first
    exact .ofExcept_bind fun _ _ => Yields.bind (yieldsPositive_over ⟨rfl, rfl⟩ rfl hinput) hindex

end

theorem yields_joinCondition (type : JoinType) (condition : Option ScalarExpr)
    (left right : Schema) :
    Yields t (joinCondition type condition left right) fun _ _ => True := by
  -- a join without keys is reported, which appends nothing
  have hreport : ∀ t' (split : JoinCondition), Yields t' (do
      if split.keys.isEmpty then Lower.report crossJoin
      return split) fun _ _ => True := by
    intro t' split
    dsimp only
    split
    · exact (yields_report crossJoin).bind fun _ _ _ _ => yields_pure trivial
    · exact yields_pure trivial
  unfold joinCondition
  dsimp only
  split
  · exact (yields_throw (P := fun _ _ => False)).bind fun _ _ _ h => h.elim
  · cases condition with
    | none =>
      exact (yields_pure (P := fun _ _ => True) trivial).bind fun t' split _ _ => hreport t' split
    | some e => exact .ofExcept_bind fun split _ => hreport t split

/-- A join of inputs of positive weights. -/
theorem yieldsPositive_join {leftSchema rightSchema : Schema}
    (hleft : (t.circuit.simplifiedFrom number).GivesPositive left)
    (hright : (t.circuit.simplifiedFrom number).GivesPositive right)
    (condition : JoinCondition) :
    YieldsPositive number t (join left right leftSchema rightSchema condition schema) := by
  unfold join
  -- the operators of the one input stay as they are while those of the other are appended
  refine (yieldsPositive_indexByKey hleft _ _).bind fun t₁ leftIndex hgrows hleftIndex => ?_
  replace hright := hright.mono (hgrows.extends number)
  refine (yieldsPositive_indexByKey hright _ _).bind fun t₂ rightIndex hgrows hrightIndex => ?_
  replace hleftIndex := hleftIndex.mono (hgrows.extends number)
  refine .ofExcept_bind fun function _ => ?_
  have hinputs : ∀ input ∈ [leftIndex, rightIndex],
      (t₂.circuit.simplifiedFrom number).GivesPositive input := by
    simpa using ⟨hleftIndex, hrightIndex⟩
  refine (yieldsPositive_combine ⟨rfl, rfl⟩ rfl hinputs).bind fun t₃ joined _ hjoined => ?_
  cases condition.residual with
  | none => exact yieldsPositive_conform hjoined
  | some residual =>
    exact (yieldsPositive_filter hjoined residual).bind fun _ _ _ hkept =>
      yieldsPositive_conform hkept

/-! ### Aggregates -/

/-- **No group keys.** The row of no rows comes in where an aggregate of a single group gives no
row. -/
theorem yieldsPositive_orDefaultRow (calls : List AggregateCall)
    (hgroup : (t.circuit.simplifiedFrom number).OneGroup input) :
    YieldsPositive number t (orDefaultRow input calls schema) := by
  unfold orDefaultRow
  refine .ofExcept_bind fun row hrow => ?_
  refine .ofExcept_bind fun literal hliteral => ?_
  refine (yields_append number ⟨rfl, rfl⟩).bind fun t₁ constant h₁ hconstant => ?_
  refine .ofExcept_bind fun function hfunction => ?_
  refine (yields_append number ⟨rfl, rfl⟩).bind fun t₂ present h₂ hpresent => ?_
  refine (yields_append number ⟨rfl, rfl⟩).bind fun t₃ missing h₃ hmissing => ?_
  refine (yields_append number ⟨rfl, rfl⟩).imp fun t₄ sum h₄ hsum => ?_
  have hcontents := contents_addElement (ofTerm_eq_ok.mp hliteral) (emptyGroupRow_eq_ok hrow)
  have hdefault : (t₄.circuit.simplifiedFrom number).OrDefault input sum :=
    .intro hsum (hmissing.mono (h₄.extends number))
      (hconstant.mono (((h₂.trans h₃).trans h₄).extends number)) hcontents
      (hpresent.mono ((h₃.trans h₄).extends number))
      fun _ => simplified_constantFunction hrow hfunction _
  exact .orDefault (hgroup.mono ((((h₁.trans h₂).trans h₃).trans h₄).extends number)) hdefault

/-- **Aggregates.** Whatever an aggregate reads, it gives each of its rows once. -/
theorem yieldsPositive_aggregate (groupKeys : List Nat) (calls : List AggregateCall) :
    YieldsPositive number t (aggregate input source groupKeys calls target) := by
  unfold aggregate
  refine .ofExcept_bind fun types _ => ?_
  refine .ofExcept_bind fun key hkey => ?_
  refine (yields_append number ⟨rfl, rfl⟩).bind fun t₁ indexed _ hindexed => ?_
  refine .ofExcept_bind fun folding _ => ?_
  obtain ⟨fold, resultType⟩ := folding
  refine (yields_append number ⟨rfl, rfl⟩).bind fun t₂ folded h₂ hfolded => ?_
  refine .ofExcept_bind fun flatten _ => ?_
  refine (yields_append number ⟨rfl, rfl⟩).bind fun t₃ mapped h₃ hmapped => ?_
  replace hfolded := hfolded.mono (h₃.extends number)
  split
  · next hempty =>
    -- without columns the index has one key, and the row of no rows may be missing
    obtain rfl := List.isEmpty_iff.mp hempty
    exact yieldsPositive_orDefaultRow calls
      (.intro hmapped hfolded (hindexed.mono ((h₂.trans h₃).extends number))
        fun row _ hv => ⟨row, simplified_groupFunction hkey hv⟩)
  · exact yields_pure (.combine hmapped rfl (by simpa using .once hfolded rfl))

/-! ### Set operations -/

theorem yields_exceptOne (t : Lowering) (result input : OperatorId) :
    Yields t (exceptOne result input) fun _ _ => True :=
  (yields_append_any ⟨rfl, rfl⟩).bind fun _ _ _ _ => yields_append_any ⟨rfl, rfl⟩

theorem yields_indexByRow : Yields t (indexByRow input schema) fun _ _ => True :=
  .ofExcept_bind fun _ _ => yields_append_any ⟨rfl, rfl⟩

theorem yields_intersectOne (t : Lowering) (result input : OperatorId) :
    Yields t (intersectOne schema result input) fun _ _ => True :=
  (yields_append_any ⟨rfl, rfl⟩).bind fun _ _ _ _ => yields_indexByRow.bind fun _ _ _ _ =>
    yields_indexByRow.bind fun _ _ _ _ => .ofExcept_bind fun _ _ => yields_append_any ⟨rfl, rfl⟩

/-- **Set operations.** A union of all rows adds positive weights up; all others end in a
`distinct`, whatever the weights before it are. -/
theorem yieldsPositive_setOp (operation : SetOperation) {inputs : List OperatorId}
    (hinputs : ∀ input ∈ inputs, (t.circuit.simplifiedFrom number).GivesPositive input) :
    YieldsPositive number t (setOp operation inputs schema) := by
  have hdistinct (t : Lowering) (i : OperatorId) :
      YieldsPositive number t (append (·.addUnary .distinct i)) :=
    yieldsPositive_once ⟨rfl, rfl⟩ rfl
  cases inputs with
  | nil => cases operation <;> exact yields_throw
  | cons first rest =>
    cases operation with
    | unionAll => exact yieldsPositive_combine ⟨rfl, rfl⟩ rfl hinputs
    | union => exact (yields_append_any ⟨rfl, rfl⟩).bind fun t' sum _ _ => hdistinct t' sum
    | except =>
      exact (hdistinct t first).bind fun _ start _ _ =>
        (yields_foldlM yields_exceptOne rest start).bind fun t' result _ _ => hdistinct t' result
    | intersect =>
      exact (hdistinct t first).bind fun _ start _ _ =>
        (yields_foldlM yields_intersectOne rest start).bind fun t' result _ _ => hdistinct t' result

end Lower

/-! ### Plans -/

namespace Plan

open Lower (Yields YieldsPositive)

variable {number : Nat}

mutual

/-- **Plans.** Over tables of positive weights, a plan gives positive weights. -/
theorem yieldsPositive_lower (plan : Plan) {t : Lowering} (h : t.TablesPositive number) :
    YieldsPositive number t plan.lower := by
  cases plan with
  | scan table schema => exact Lower.yieldsPositive_scan h table schema
  | filter input condition schema =>
    have hinput := yieldsPositive_lower input h
    exact hinput.bind fun t₁ source _ hsource => Lower.yieldsPositive_filter hsource condition
  | project input exprs schema =>
    have hinput := yieldsPositive_lower input h
    exact hinput.bind fun t₁ source _ hsource => Lower.yieldsPositive_project hsource exprs
  | join left right type condition schema =>
    -- the operators of one input stay as they are while the other one is lowered
    refine (Lower.yields_joinCondition type condition left.schema right.schema).bind
      fun t₁ split hgrows _ => ?_
    have htables₁ := h.mono hgrows
    refine (yieldsPositive_lower left htables₁).bind fun t₂ leftSource hgrows hleft => ?_
    have htables₂ := htables₁.mono hgrows
    refine (yieldsPositive_lower right htables₂).bind fun t₃ rightSource hgrows hright => ?_
    exact Lower.yieldsPositive_join (hleft.mono (hgrows.extends number)) hright split
  | aggregate input groupKeys calls schema =>
    have hinput := yieldsPositive_lower input h
    exact hinput.bind fun _ _ _ _ => Lower.yieldsPositive_aggregate groupKeys calls
  | sort input keys schema =>
    have hinput := yieldsPositive_lower input h
    refine hinput.bind fun t₁ source _ hsource => ?_
    refine (Lower.yields_report orderIgnored).bind fun t₂ _ hgrows _ => ?_
    exact Lower.yieldsPositive_over ⟨rfl, rfl⟩ rfl (hsource.mono (hgrows.extends number))
  | limit input fetch schema => exact Lower.yields_throw
  | setOp operation inputs schema =>
    have hinputs := yieldsPositive_lowerAll schema inputs h
    exact hinputs.bind fun t₁ sources _ hsources =>
      Lower.yieldsPositive_setOp operation hsources

/-- The inputs of a set operation, in the types of its schema. -/
theorem yieldsPositive_lowerAll (schema : Schema) (plans : List Plan) {t : Lowering}
    (h : t.TablesPositive number) :
    Yields t (lowerAll schema plans) fun t' ids =>
      ∀ id ∈ ids, (t'.circuit.simplifiedFrom number).GivesPositive id := by
  cases plans with
  | nil => exact Lower.yields_pure (List.forall_mem_nil _)
  | cons input inputs =>
    refine (yieldsPositive_lower input h).bind fun t₁ source hgrows hsource => ?_
    have htables₁ := h.mono hgrows
    refine (Lower.yieldsPositive_conform hsource).bind fun t₂ first hgrows hfirst => ?_
    have htables₂ := htables₁.mono hgrows
    refine (yieldsPositive_lowerAll schema inputs htables₂).bind fun t₃ rest hgrows hrest => ?_
    have hfirst₃ := hfirst.mono (hgrows.extends number)
    exact Lower.yields_pure (List.forall_mem_cons.mpr ⟨hfirst₃, hrest⟩)

end

end Plan
end DeltaCircuit
