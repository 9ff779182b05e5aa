import DeltaCircuit.Proofs.Plan.Join
import DeltaCircuit.Proofs.Plan.Positive
import DeltaCircuit.Proofs.Program

/-!
# Plans deliver the rows that they declare

Every node of a plan declares the schema of its output, and the nodes above it are compiled against
that schema. The operators, however, are typed by what they read. The two agree: the last operator
of a plan gives a Z-set of the rows that the plan declares.

A filter and a sort hand on what they read, so they have to repeat the column types of their input.
All other nodes may declare any schema, as long as their row functions can be compiled: a map and a
join have the type that they are given, and what is combined in a set operation has been converted
before.

* `OperatorKind.outputType?` — the type of an output, from the kind and the types of the inputs.
* `Circuit.HasType` — an operator is there and has an output of a type.
* `Lower.yieldsType_append` — the type of an operator that is appended.
* `Lower.yieldsType_join`, `Lower.yieldsType_aggregate`, `Lower.yieldsType_setOp` — the nodes.
* `Plan.yieldsType_lower` — plans, by induction.
* `Compiler.tablesTyped_run` — commands keep the types of the sources, even if they fail.
-/

namespace DeltaCircuit

open ExceptT (gives_bind gives_pure gives_throw)

/-! ### Types of outputs -/

/-- The type of an output, from the kind of the operator and the types of what it reads. Kinds that
do not tell it themselves have the type of their first input. -/
def OperatorKind.outputType? : OperatorKind → List Ty → Option Ty
  | .source _ element, _ => some (.zset element)
  | .constant value, _ => some value.type
  | .map output, _ | .join _ output, _ => some (.zset output)
  | .index keyType valueType, _ => some (.indexedZSet keyType valueType)
  | .aggregate keyType output, _ => some (.indexedZSet keyType output)
  | _, types => types.head?

namespace Circuit

/-- The circuit has an operator at a place whose output has a type. -/
def HasType (c : Circuit) (id : OperatorId) (type : Ty) : Prop :=
  ∃ op, c.get? id = some op ∧ op.outputType = type

variable {c c' : Circuit} {kind : OperatorKind} {id : OperatorId} {type : Ty}

theorem HasType.mono (h : c.HasType id type) (hextends : c'.Extends c) : c'.HasType id type := by
  obtain ⟨op, hop, htype⟩ := h
  exact ⟨op, hextends.get? hop, htype⟩

/-- What is derived for an operator has the type of its kind. -/
theorem Derives.outputType? {ops : List Operator} {function : Option Expr} {r : Ty × Bool}
    (h : c.Derives kind ops function r) :
    kind.outputType? (ops.map Operator.outputType) = some r.1 := by
  cases h with
  | relay hkind =>
    cases kind with
    | integral | differential | noop | sink _ _ _ => rfl
    | _ => cases hkind
  | _ => rfl

/-- What is built has the type of its kind, over inputs that exist. -/
theorem outputType?_of_derive {inputs : List OperatorId} {function : Option Expr} {r : Ty × Bool}
    (h : c.derive kind inputs function = .ok r) :
    ∃ types, List.Forall₂ c.HasType inputs types ∧ kind.outputType? types = some r.1 := by
  obtain ⟨-, -, ops, hops, hderive⟩ := derive_eq_ok.mp h
  refine ⟨ops.map Operator.outputType, ?_, hderive.outputType?⟩
  rw [List.forall₂_map_right_iff]
  exact hops.imp fun id op hop => ⟨op, hop, rfl⟩

/-- What a circuit has grown by stands behind what it had. -/
theorem Grows.extends (h : c.Grows c') : c'.Extends c := by
  induction h with
  | refl => exact .refl _
  | push _ _ ih => exact (extends_push _ _).trans ih

end Circuit

/-! ### Steps of lowering -/

/-- The sources of all tables give the rows of their schemas. -/
def Lowering.TablesTyped (t : Lowering) : Prop :=
  ∀ entry ∈ t.tables, t.circuit.HasType entry.2.source (.zset entry.2.schema.rowType)

theorem Lowering.TablesTyped.mono {t t' : Lowering} (h : t.TablesTyped)
    (hextends : t'.circuit.Extends t.circuit) (htables : t'.tables = t.tables) :
    t'.TablesTyped := by
  intro entry hentry
  rw [htables] at hentry
  exact (h entry hentry).mono hextends

namespace Lower

variable {t t' : Lowering} {kind : OperatorKind} {inputs : List OperatorId}
  {function : Option Expr} {f : Expr} {input left right id : OperatorId} {type output : Ty}
  {schema source target : Schema}

/-- What is appended has been derived. -/
theorem gives_append_derived (h : (append (·.build kind inputs function)).Gives t id t') :
    ∃ derived, t.circuit.derive kind inputs function = .ok derived ∧ id = t.circuit.size ∧
      t' = t.push (.ofKind kind inputs function derived) := by
  unfold ExceptT.Gives append at h
  split at h
  · next circuit found hbuild =>
    obtain ⟨type, multiset, hderive, hr⟩ := Circuit.build_eq_ok.mp hbuild
    obtain ⟨rfl, rfl⟩ := Prod.mk.inj hr
    obtain ⟨hid, rfl⟩ := Prod.mk.inj h
    exact ⟨(type, multiset), hderive, (Except.ok.inj hid).symm, rfl⟩
  · cases (Prod.mk.inj h).1

/-- The operator that the step gives has an output of a type. -/
def YieldsType (t : Lowering) (x : Lower OperatorId) (type : Ty) : Prop :=
  Yields t x fun t' id => t'.circuit.HasType id type

/-- **Appended operators.** An operator has the type that its kind has over the inputs. -/
theorem yieldsType_append (hkind : kind.IsInternal)
    (htype : ∀ types, List.Forall₂ t.circuit.HasType inputs types →
      kind.outputType? types = some type) :
    YieldsType t (append (·.build kind inputs function)) type := by
  intro id t' hgives
  obtain ⟨hgrows, -⟩ := yields_append_any hkind id t' hgives
  obtain ⟨derived, hderive, rfl, rfl⟩ := gives_append_derived hgives
  obtain ⟨types, htypes, hderived⟩ := Circuit.outputType?_of_derive hderive
  refine ⟨hgrows, .ofKind kind inputs function derived, Circuit.get?_push_size _ _, ?_⟩
  exact Option.some.inj (hderived.symm.trans (htype types htypes))

/-- An operator that tells the rows that it gives. -/
theorem yieldsType_map : YieldsType t (append (·.addMap input f output)) (.zset output) :=
  yieldsType_append ⟨rfl, rfl⟩ fun _ _ => rfl

theorem yieldsType_addJoin {keyType : Ty} :
    YieldsType t (append (·.addJoin left right f keyType output)) (.zset output) :=
  yieldsType_append ⟨rfl, rfl⟩ fun _ _ => rfl

/-- An operator that hands on the type of its first input. -/
theorem yieldsType_over (hkind : kind.IsInternal)
    (hhands : ∀ types, kind.outputType? types = types.head?)
    (hinput : t.circuit.HasType input type) :
    YieldsType t (append (·.build kind (input :: inputs) function)) type := by
  refine yieldsType_append hkind fun types htypes => ?_
  cases htypes with
  | cons hfirst _ =>
    -- the input has one type only
    obtain ⟨op, hop, rfl⟩ := hinput
    obtain ⟨op', hop', rfl⟩ := hfirst
    obtain rfl := Option.some.inj (hop.symm.trans hop')
    exact hhands _

/-! ### Nodes -/

/-- A scan gives the rows that it declares, as they are those of the table. -/
theorem yieldsType_scan (htables : t.TablesTyped) (table : String) (schema : Schema) :
    YieldsType t (scan table schema) (.zset schema.rowType) := by
  intro id t' hgives
  obtain ⟨rfl, found, hfound, hsame, rfl⟩ := gives_scan hgives
  rw [← hsame]
  exact ⟨.refl _, htables _ (Assoc.mem_of_get? hfound)⟩

theorem yieldsType_filter (hinput : t.circuit.HasType input type) (condition : ScalarExpr) :
    YieldsType t (filter input schema condition) type :=
  .ofExcept_bind fun _ _ => yieldsType_over ⟨rfl, rfl⟩ (fun _ => rfl) hinput

theorem yieldsType_project (exprs : List ScalarExpr) :
    YieldsType t (project input source exprs target) (.zset target.rowType) :=
  .ofExcept_bind fun _ _ => yieldsType_map

/-- **Conversions.** Rows that are converted, or that need no conversion, are those of the target. -/
theorem yieldsType_conform (hinput : t.circuit.HasType input (.zset source.rowType)) :
    YieldsType t (conform input source target) (.zset target.rowType) := by
  unfold conform
  split
  · next hsame =>
    rw [← hsame]
    exact yields_pure hinput
  · exact .ofExcept_bind fun _ _ => yieldsType_map

theorem yields_indexByKey (columns : List Nat) (types : List Ty) :
    Yields t (indexByKey input schema columns types) fun _ _ => True := by
  have hindex : ∀ t' i, Yields t' (do
      append (·.addIndex i (← ofExcept (keyFunction schema columns types)) (.tuple types)
        schema.rowType)) fun _ _ => True := fun _ _ =>
    .ofExcept_bind fun _ _ => yields_append_any ⟨rfl, rfl⟩
  unfold indexByKey
  dsimp only
  split
  · exact hindex t input
  · exact .ofExcept_bind fun _ _ => (yields_append_any ⟨rfl, rfl⟩).bind fun t' i _ _ => hindex t' i

/-- **Joins.** What is joined are the rows of both inputs side by side, whatever the operators below
give, and they are converted to the rows of the node. -/
theorem yieldsType_join {leftSchema rightSchema : Schema} (condition : JoinCondition) :
    YieldsType t (join left right leftSchema rightSchema condition schema)
      (.zset schema.rowType) := by
  unfold join
  refine (yields_indexByKey _ _).bind fun t₁ leftIndex _ _ => ?_
  refine (yields_indexByKey _ _).bind fun t₂ rightIndex _ _ => ?_
  refine .ofExcept_bind fun function _ => ?_
  refine yieldsType_addJoin.bind fun t₃ joined _ hjoined => ?_
  cases condition.residual with
  | none => exact yieldsType_conform hjoined
  | some residual =>
    exact (yieldsType_filter hjoined residual).bind fun _ _ _ hkept => yieldsType_conform hkept

/-- The row of no rows is added to what has the type already. -/
theorem yieldsType_orDefaultRow (calls : List AggregateCall)
    (hinput : t.circuit.HasType input type) :
    YieldsType t (orDefaultRow input calls schema) type := by
  unfold orDefaultRow
  refine .ofExcept_bind fun row _ => ?_
  refine .ofExcept_bind fun literal _ => ?_
  refine (yields_append_any ⟨rfl, rfl⟩).bind fun t₁ constant h₁ _ => ?_
  refine .ofExcept_bind fun function _ => ?_
  refine (yields_append_any ⟨rfl, rfl⟩).bind fun t₂ present h₂ _ => ?_
  refine (yields_append_any ⟨rfl, rfl⟩).bind fun t₃ missing h₃ _ => ?_
  -- the sum goes by the aggregate, which comes first
  have hgrows := (h₁.trans h₂).trans h₃
  exact yieldsType_over ⟨rfl, rfl⟩ (fun _ => rfl) (hinput.mono hgrows.circuit.extends)

/-- **Aggregates.** The keys and the results of a group are put into a row of the node. -/
theorem yieldsType_aggregate (groupKeys : List Nat) (calls : List AggregateCall) :
    YieldsType t (aggregate input source groupKeys calls target) (.zset target.rowType) := by
  unfold aggregate
  refine .ofExcept_bind fun types _ => ?_
  refine .ofExcept_bind fun key _ => ?_
  refine (yields_append_any ⟨rfl, rfl⟩).bind fun t₁ indexed _ _ => ?_
  refine .ofExcept_bind fun folding _ => ?_
  obtain ⟨fold, resultType⟩ := folding
  refine (yields_append_any ⟨rfl, rfl⟩).bind fun t₂ folded _ _ => ?_
  refine .ofExcept_bind fun flatten _ => ?_
  refine yieldsType_map.bind fun t₃ mapped _ hmapped => ?_
  split
  · exact yieldsType_orDefaultRow calls hmapped
  · exact yields_pure hmapped

/-! ### Set operations -/

/-- A loop whose steps keep the type that they start from, while the circuit grows. -/
theorem yieldsType_foldlM {step : OperatorId → OperatorId → Lower OperatorId}
    (hstep : ∀ t result input, t.circuit.HasType result type →
      YieldsType t (step result input) type) (inputs : List OperatorId) (start : OperatorId)
    (hstart : t.circuit.HasType start type) : YieldsType t (inputs.foldlM step start) type := by
  induction inputs generalizing t start with
  | nil => exact yields_pure hstart
  | cons input inputs ih =>
    rw [List.foldlM_cons]
    exact (hstep t start input hstart).bind fun t' next _ hnext => ih next hnext

theorem yieldsType_distinct (hinput : t.circuit.HasType input type) :
    YieldsType t (append (·.addUnary .distinct input)) type :=
  yieldsType_over ⟨rfl, rfl⟩ (fun _ => rfl) hinput

theorem yieldsType_exceptOne (hresult : t.circuit.HasType left type) :
    YieldsType t (exceptOne left right) type := by
  refine (yields_append_any ⟨rfl, rfl⟩).bind fun t' removed hgrows _ => ?_
  exact yieldsType_over ⟨rfl, rfl⟩ (fun _ => rfl) (hresult.mono hgrows.circuit.extends)

theorem yieldsType_intersectOne :
    YieldsType t (intersectOne schema left right) (.zset schema.rowType) :=
  (yields_append_any ⟨rfl, rfl⟩).bind fun _ _ _ _ => yields_indexByRow.bind fun _ _ _ _ =>
    yields_indexByRow.bind fun _ _ _ _ => .ofExcept_bind fun _ _ => yieldsType_addJoin

/-- **Set operations.** Over inputs of the rows of the node, every operation gives such rows. -/
theorem yieldsType_setOp (operation : SetOperation) {inputs : List OperatorId}
    (hinputs : ∀ input ∈ inputs, t.circuit.HasType input (.zset schema.rowType)) :
    YieldsType t (setOp operation inputs schema) (.zset schema.rowType) := by
  cases inputs with
  | nil => cases operation <;> exact yields_throw
  | cons first rest =>
    have hfirst := hinputs first List.mem_cons_self
    have hsum : YieldsType t (append (·.addSum (first :: rest))) (.zset schema.rowType) :=
      yieldsType_over ⟨rfl, rfl⟩ (fun _ => rfl) hfirst
    cases operation with
    | unionAll => exact hsum
    | union => exact hsum.bind fun _ _ _ hsum => yieldsType_distinct hsum
    | except =>
      refine (yieldsType_distinct hfirst).bind fun t₁ start _ hstart => ?_
      refine (yieldsType_foldlM (fun _ _ _ h => yieldsType_exceptOne h) rest start hstart).bind ?_
      exact fun _ _ _ hresult => yieldsType_distinct hresult
    | intersect =>
      refine (yieldsType_distinct hfirst).bind fun t₁ start _ hstart => ?_
      refine (yieldsType_foldlM (fun _ _ _ _ => yieldsType_intersectOne) rest start hstart).bind ?_
      exact fun _ _ _ hresult => yieldsType_distinct hresult

end Lower

/-! ### Plans -/

namespace Plan

open Lower (Yields YieldsType)

mutual

/-- Every filter and every sort in the plan repeats the column types of its input. -/
def RepeatsTypes : Plan → Prop
  | .scan _ _ => True
  | .filter input _ schema => schema.types = input.schema.types ∧ input.RepeatsTypes
  | .project input _ _ => input.RepeatsTypes
  | .join left right _ _ _ => left.RepeatsTypes ∧ right.RepeatsTypes
  | .aggregate input _ _ _ => input.RepeatsTypes
  | .sort input _ schema => schema.types = input.schema.types ∧ input.RepeatsTypes
  | .limit input _ _ => input.RepeatsTypes
  | .setOp _ inputs _ => RepeatsTypesAll inputs
termination_by structural x => x

def RepeatsTypesAll : List Plan → Prop
  | [] => True
  | plan :: plans => plan.RepeatsTypes ∧ RepeatsTypesAll plans
termination_by structural x => x

end

mutual

/-- **Plans.** A plan is lowered to an operator that gives the rows that the plan declares. -/
theorem yieldsType_lower (plan : Plan) (hplan : plan.RepeatsTypes) {t : Lowering}
    (htables : t.TablesTyped) : YieldsType t plan.lower (.zset plan.schema.rowType) := by
  cases plan with
  | scan table schema => exact Lower.yieldsType_scan htables table schema
  | filter input condition schema =>
    obtain ⟨hrepeats, hplan⟩ := hplan
    -- the filter has the type of what it reads, and declares the same
    have htypes : schema.rowType = input.schema.rowType := congrArg Ty.tuple hrepeats
    have hinput := yieldsType_lower input hplan htables
    refine hinput.bind fun t₁ source _ hsource => ?_
    show YieldsType t₁ _ (.zset schema.rowType)
    rw [htypes]
    exact Lower.yieldsType_filter hsource condition
  | project input exprs schema =>
    have hinput := yieldsType_lower input hplan htables
    exact hinput.bind fun _ _ _ _ => Lower.yieldsType_project exprs
  | join left right type condition schema =>
    obtain ⟨hleft, hright⟩ := hplan
    refine (Lower.yields_joinCondition type condition left.schema right.schema).bind
      fun t₁ split h₁ _ => ?_
    have htables₁ := htables.mono h₁.circuit.extends h₁.tables
    refine (yieldsType_lower left hleft htables₁).bind fun t₂ leftSource h₂ _ => ?_
    have htables₂ := htables₁.mono h₂.circuit.extends h₂.tables
    refine (yieldsType_lower right hright htables₂).bind fun t₃ rightSource _ _ => ?_
    exact Lower.yieldsType_join split
  | aggregate input groupKeys calls schema =>
    have hinput := yieldsType_lower input hplan htables
    exact hinput.bind fun _ _ _ _ => Lower.yieldsType_aggregate groupKeys calls
  | sort input keys schema =>
    obtain ⟨hrepeats, hplan⟩ := hplan
    have htypes : schema.rowType = input.schema.rowType := congrArg Ty.tuple hrepeats
    have hinput := yieldsType_lower input hplan htables
    refine hinput.bind fun t₁ source _ hsource => ?_
    refine (Lower.yields_report orderIgnored).bind fun t₂ _ hgrows _ => ?_
    show YieldsType t₂ _ (.zset schema.rowType)
    rw [htypes]
    exact Lower.yieldsType_over ⟨rfl, rfl⟩ (fun _ => rfl) (hsource.mono hgrows.circuit.extends)
  | limit input fetch schema => exact Lower.yields_throw
  | setOp operation inputs schema =>
    have hinputs := yieldsType_lowerAll schema inputs hplan htables
    exact hinputs.bind fun _ _ _ hsources => Lower.yieldsType_setOp operation hsources

/-- The inputs of a set operation give the rows of its schema. -/
theorem yieldsType_lowerAll (schema : Schema) (plans : List Plan) (hplans : RepeatsTypesAll plans)
    {t : Lowering} (htables : t.TablesTyped) :
    Yields t (lowerAll schema plans) fun t' ids =>
      ∀ id ∈ ids, t'.circuit.HasType id (.zset schema.rowType) := by
  cases plans with
  | nil => exact Lower.yields_pure (List.forall_mem_nil _)
  | cons input inputs =>
    obtain ⟨hinput, hinputs⟩ := hplans
    refine (yieldsType_lower input hinput htables).bind fun t₁ source h₁ hsource => ?_
    have htables₁ := htables.mono h₁.circuit.extends h₁.tables
    refine (Lower.yieldsType_conform hsource).bind fun t₂ first h₂ hfirst => ?_
    have htables₂ := htables₁.mono h₂.circuit.extends h₂.tables
    refine (yieldsType_lowerAll schema inputs hinputs htables₂).bind fun t₃ rest h₃ hrest => ?_
    have hfirst₃ := hfirst.mono h₃.circuit.extends
    exact Lower.yields_pure (List.forall_mem_cons.mpr ⟨hfirst₃, hrest⟩)

end

end Plan

/-! ### Commands -/

/-- What is left of an operator that is appended, or that is refused. -/
theorem Lower.extends_append (t : Lowering) (kind : OperatorKind) (inputs : List OperatorId)
    (function : Option Expr) :
    (append (·.build kind inputs function) t).2.circuit.Extends t.circuit ∧
      (append (·.build kind inputs function) t).2.tables = t.tables := by
  cases hbuild : t.circuit.build kind inputs function with
  | error e =>
    rw [append_of_error hbuild]
    exact ⟨.refl _, rfl⟩
  | ok built =>
    obtain ⟨type, multiset, -, rfl⟩ := Circuit.build_eq_ok.mp hbuild
    rw [append_of_ok hbuild]
    exact ⟨Circuit.extends_push _ _, rfl⟩

namespace Compiler

variable {c : Compiler} {t : Lowering}

/-- A view that is created, or that fails, leaves operators behind and the tables as they are. -/
theorem extends_createView (hself : Lowering.Embeds id t t) (name query : String)
    (comment : Option String) (plan : Plan) :
    (createView name query comment plan t).2.circuit.Extends t.circuit ∧
      (createView name query comment plan t).2.tables = t.tables := by
  obtain ⟨hcircuit, htables⟩ := (plan.lockstep_lower t t hself).grows
  obtain ⟨result, t', hplan⟩ : ∃ result t', plan.lower t = (result, t') := ⟨_, _, rfl⟩
  rw [hplan] at hcircuit htables
  unfold createView
  cases result with
  | error e =>
    rw [ExceptT.bind_run_error hplan]
    exact ⟨hcircuit.extends, htables⟩
  | ok output =>
    rw [ExceptT.bind_run_ok hplan, ExceptT.discard_run_snd]
    -- the sink comes behind the operators of the plan
    obtain ⟨hextends, hsame⟩ := Lower.extends_append t' (.sink name query comment) [output] none
    exact ⟨hextends.trans hcircuit.extends, hsame.trans htables⟩

/-- A table that is created has a source of its rows. -/
theorem tablesTyped_createTable (h : t.TablesTyped) (name : String) (schema : Schema) :
    (createTable name schema t).2.TablesTyped := by
  cases hknown : (Assoc.get? t.tables name).isSome with
  | true =>
    rw [createTable_of_known hknown]
    exact h
  | false =>
    cases hbuild : t.circuit.addSource name schema.rowType with
    | error e =>
      rw [createTable_of_error hknown (Lower.append_of_error hbuild)]
      exact h
    | ok built =>
      obtain ⟨type, multiset, hderive, rfl⟩ := Circuit.build_eq_ok.mp hbuild
      obtain ⟨types, -, htype⟩ := Circuit.outputType?_of_derive hderive
      rw [createTable_of_ok hknown (Lower.append_of_ok hbuild)]
      intro entry hentry
      rcases Assoc.mem_set hentry with hold | rfl
      · exact (h entry hold).mono (Circuit.extends_push _ _)
      · exact ⟨_, Circuit.get?_push_size _ _, (Option.some.inj htype).symm⟩

/-- **One more command** leaves the sources typed, whether it succeeds or not. -/
theorem tablesTyped_run (hself : Tracks id c c) (h : c.lowering.TablesTyped) (command : Command) :
    (c.run command).2.lowering.TablesTyped := by
  cases command with
  | createTable name schema => exact tablesTyped_createTable h name schema
  | createView name query comment plan =>
    by_cases htaken : name ∈ c.views
    · rw [run_of_taken rfl htaken]
      exact h
    · rw [run_createView htaken, runLowering_eq]
      obtain ⟨hextends, htables⟩ := extends_createView hself.lowering name query comment plan
      exact h.mono hextends htables
  | insert table rows | delete table rows =>
    obtain ⟨contents, hadded⟩ := c.addRows_snd table rows _
    have hrun := congrArg Compiler.lowering hadded
    exact Eq.mpr (congrArg Lowering.TablesTyped hrun) h

/-- The last of the commands that are fed runs after the others. -/
theorem feed_concat (c : Compiler) (commands : List Command) (command : Command) :
    (c.feed (commands ++ [command])).2 = ((c.feed commands).2.run command).2 := by
  induction commands generalizing c with
  | nil =>
    rw [List.nil_append, feed, feed]
    split <;> (next hrun => rw [hrun]; rfl)
  | cons first commands ih =>
    rw [List.cons_append, feed, feed]
    split
    · exact ih _
    · exact ih _

/-- **Runs of commands** leave the sources typed. -/
theorem Reachable.tablesTyped (hc : c.Reachable) : c.lowering.TablesTyped := by
  obtain ⟨options, commands, rfl⟩ := hc
  induction commands using List.reverseRecOn with
  | nil => exact nofun
  | append_singleton commands command ih =>
    rw [feed_concat]
    have hself := Reachable.tracks ⟨options, commands, rfl⟩
    exact tablesTyped_run hself ih command

end Compiler

/-! ### What plans deliver -/

namespace Plan

/-- **Declared schemas.** Whatever commands have been run before, with or without success: if a plan
is lowered whose filters and sorts repeat the column types of their inputs, then the operator that
comes out of it exists, and its output type is the type of Z-sets of the rows that the plan
declares. -/
theorem lower_outputType {c : Compiler} (hc : c.Reachable) {plan : Plan}
    (hplan : plan.RepeatsTypes) {id : OperatorId} {t : Lowering}
    (h : plan.lower.Gives c.lowering id t) :
    ∃ op, t.circuit.get? id = some op ∧ op.outputType = .zset plan.schema.rowType := by
  obtain ⟨-, htype⟩ := yieldsType_lower plan hplan hc.tablesTyped id t h
  exact htype

/-! #### Numbers of three kinds -/

def numbers : Schema := ⟨[⟨"NUMBER", .i64⟩]⟩

/-- The number of large orders, the numbers of customers and the amounts of orders, sorted. The
first two are of the declared type already, and the amounts are converted to it. -/
def allNumbers : Plan :=
  .sort (.setOp .union
    [.aggregate (.filter largeOrders (.call .isNotNull [.column 0 { Ty.i32 with nullable := true }]
        .bool) largeOrders.schema) [] [⟨.count, none, .i64⟩] numbers,
      .scan "CUSTOMERS" customers,
      .project (.scan "ORDERS" orders) [.column 1 .i32] ⟨[⟨"AMOUNT", .i32⟩]⟩] numbers)
    [⟨0, true⟩] numbers

/-- A compiler that knows the tables. The command between them has failed. -/
def shopCompiler : Compiler :=
  ((Compiler.start .default).feed [.createTable "ORDERS" orders,
    .createView "TOP" "q" none (.limit (.scan "ORDERS" orders) 10 orders),
    .createTable "CUSTOMERS" customers]).2

/-- The last operator of the plan gives the declared numbers. -/
theorem lower_outputType_allNumbers :
    shopCompiler.Reachable ∧ allNumbers.RepeatsTypes ∧
      ∃ t op, allNumbers.lower.Gives shopCompiler.lowering 20 t ∧ t.circuit.get? 20 = some op ∧
        op.outputType = .zset numbers.rowType := by
  have hc : shopCompiler.Reachable := ⟨_, _, rfl⟩
  have hplan : allNumbers.RepeatsTypes := by
    simp [allNumbers, largeOrders, RepeatsTypes, RepeatsTypesAll, Plan.schema]
  have hid : (allNumbers.lower shopCompiler.lowering).1.toOption = some 20 := by decide +kernel
  rcases hrun : allNumbers.lower shopCompiler.lowering with ⟨result, t⟩
  rw [hrun, Except.toOption_eq_some] at hid
  have hlower : allNumbers.lower.Gives shopCompiler.lowering 20 t :=
    (ExceptT.gives_iff hrun).mpr ⟨hid, rfl⟩
  obtain ⟨op, hop, htype⟩ := lower_outputType hc hplan hlower
  exact ⟨hc, hplan, t, op, hlower, hop, htype⟩

end Plan
end DeltaCircuit
