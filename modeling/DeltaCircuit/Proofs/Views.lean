import DeltaCircuit.Proofs.Plan.Positive
import DeltaCircuit.Proofs.Program

/-!
# Views over multisets are multisets

What a program shows of tables without weights of zero and below has no such weights itself, if the
program is compiled for whole tables and not for changes. The commands of a program keep the
invariant that every table and every view gives positive weights in the circuit with simplified
functions, and of that circuit only dead code is removed.

* `Lowering.ViewsPositive` — the invariant.
* `Compiler.gives_createTable`, `Compiler.gives_createView` — what the two commands have done.
* `Compiler.viewsPositive_run`, `Compiler.viewsPositive_runAll` — commands keep it.
* `Compiler.sinksPositive_runPasses` — what the passes leave of it.
* `Program.positive_views` — the outputs of a compiled program.
-/

namespace DeltaCircuit

open ExceptT (gives_bind)

/-- **The invariant.** With simplified functions, the sources of all tables and all sinks give
positive weights. -/
structure Lowering.ViewsPositive (number : Nat) (t : Lowering) : Prop where
  tables : t.TablesPositive number
  sinks : (t.circuit.simplifiedFrom number).SinksPositive

variable {number : Nat} {t t' : Lowering}

/-- What has grown has no new sinks. -/
theorem Lowering.ViewsPositive.mono (h : t.ViewsPositive number) (hgrows : t.Grows t') :
    t'.ViewsPositive number where
  tables := h.tables.mono hgrows
  sinks := by
    have hsinks := h.sinks
    obtain ⟨hcircuit, -⟩ := hgrows
    generalize t'.circuit = c at hcircuit ⊢
    induction hcircuit with
    | refl => exact hsinks
    | @push _ op _ hkind ih =>
      rw [Circuit.simplifiedFrom_push]
      refine ih.push fun name hname => ?_
      have hnone : op.kind.sinkName? = none := OperatorKind.sinkName?_of_isSink hkind.2
      cases hnone.symm.trans hname

/-- After an operator that gives positive weights if it is a sink. -/
theorem Lowering.ViewsPositive.push (h : t.ViewsPositive number) {op : Operator}
    (hop : ∀ name, op.kind.sinkName? = some name →
      ((t.push op).circuit.simplifiedFrom number).GivesPositive t.circuit.size) :
    (t.push op).ViewsPositive number where
  tables entry hentry := by
    show ((t.circuit.push op).simplifiedFrom number).GivesPositive entry.2.source
    rw [Circuit.simplifiedFrom_push]
    exact (h.tables entry hentry).mono (Circuit.extends_push _ _)
  sinks := by
    have hlast : ∀ name, op.kind.sinkName? = some name →
        ((t.circuit.push op).simplifiedFrom number).GivesPositive t.circuit.size := hop
    show ((t.circuit.push op).simplifiedFrom number).SinksPositive
    rw [Circuit.simplifiedFrom_push] at hlast ⊢
    refine h.sinks.push fun name hname => ?_
    rw [Circuit.size_simplifiedFrom]
    exact hlast name hname

namespace Compiler

variable {name query : String} {schema : Schema} {comment : Option String} {plan : Plan}

/-- A table that has been created was not known. Its source is the operator of its step. -/
theorem gives_createTable (h : (createTable name schema).Gives t () t') :
    Assoc.get? t.tables name = none ∧ ∃ source t₁,
      (Lower.append (·.addSource name schema.rowType)).Gives t source t₁ ∧
        t' = { t₁ with tables := Assoc.set t₁.tables name ⟨source, schema⟩ } := by
  unfold ExceptT.Gives at h
  cases hknown : (Assoc.get? t.tables name).isSome with
  | true => cases h.symm.trans (createTable_of_known hknown)
  | false =>
    obtain ⟨result, t₁, happend⟩ :
      ∃ result t₁, Lower.append (·.addSource name schema.rowType) t = (result, t₁) := ⟨_, _, rfl⟩
    cases result with
    | error e => cases h.symm.trans (createTable_of_error hknown happend)
    | ok source =>
      obtain ⟨-, hlast⟩ := Prod.mk.inj (h.symm.trans (createTable_of_ok hknown happend))
      exact ⟨by simpa using hknown, source, t₁, happend, hlast⟩

/-- The operators of a view are those of its plan and the sink over the last one. -/
theorem gives_createView (h : (createView name query comment plan).Gives t () t') :
    ∃ output t₁ sink, plan.lower.Gives t output t₁ ∧
      (Lower.append (·.addSink output name query comment)).Gives t₁ sink t' := by
  unfold createView at h
  obtain ⟨output, t₁, hplan, h⟩ := gives_bind.mp h
  obtain ⟨sink, hsink⟩ := ExceptT.gives_discard.mp h
  exact ⟨output, t₁, sink, hplan, hsink⟩

/-- A source gives what its table holds. -/
theorem viewsPositive_createTable (h : t.ViewsPositive number)
    (hgives : (createTable name schema).Gives t () t') : t'.ViewsPositive number := by
  obtain ⟨-, source, t₁, happend, rfl⟩ := gives_createTable hgives
  obtain ⟨-, hsource⟩ := Lower.hasOperator_append happend
  obtain ⟨rfl, op, hkind, -, -, rfl⟩ := Lower.gives_append happend
  have hviews : (t.push op).ViewsPositive number := h.push fun name hname => by
    rw [hkind] at hname
    cases hname
  refine ⟨fun entry hentry => ?_, hviews.sinks⟩
  rcases Assoc.mem_set hentry with hold | rfl
  · exact hviews.tables entry hold
  · exact .combine (hsource.simplifiedFrom number) rfl (List.forall_mem_nil _)

/-- A sink gives what its plan gives. -/
theorem viewsPositive_createView (h : t.ViewsPositive number)
    (hgives : (createView name query comment plan).Gives t () t') : t'.ViewsPositive number := by
  -- the operators of the plan come first, and the sink is the only one of its step
  obtain ⟨output, t₁, sink, hplan, happend⟩ := gives_createView hgives
  obtain ⟨hgrows, houtput⟩ := plan.yieldsPositive_lower h.tables output t₁ hplan
  obtain ⟨-, hsink⟩ := Lower.hasOperator_append happend
  obtain ⟨rfl, op, -, -, -, rfl⟩ := Lower.gives_append happend
  have hextends : ((t₁.push op).circuit.simplifiedFrom number).Extends
      (t₁.circuit.simplifiedFrom number) := by
    show ((t₁.circuit.push op).simplifiedFrom number).Extends _
    rw [Circuit.simplifiedFrom_push]
    exact Circuit.extends_push _ _
  refine (h.mono hgrows).push fun _ _ => ?_
  refine .combine (hsink.simplifiedFrom number) rfl fun input hinput => ?_
  obtain rfl := List.mem_singleton.mp hinput
  exact houtput.mono hextends

/-! ### Commands -/

variable {c c' : Compiler} {command : Command} {commands : List Command} {options : Options}

/-- A step of lowering that has succeeded. -/
theorem gives_of_runLowering {action : Lower Unit} (h : c.runLowering action = (.ok (), c')) :
    action.Gives c.lowering () c'.lowering := by
  rw [runLowering_eq] at h
  obtain ⟨hresult, rfl⟩ := Prod.mk.inj h
  exact Prod.ext hresult rfl

/-- **One more command** keeps the invariant, if it succeeds. -/
theorem viewsPositive_run (h : c.lowering.ViewsPositive number)
    (hrun : c.run command = (.ok (), c')) : c'.lowering.ViewsPositive number := by
  cases command with
  | createTable name schema => exact viewsPositive_createTable h (gives_of_runLowering hrun)
  | createView name query comment plan =>
    by_cases htaken : name ∈ c.views
    · -- a name that is taken fails
      cases (run_of_taken rfl htaken).symm.trans hrun
    · rw [run_createView htaken] at hrun
      exact viewsPositive_createView h
        (gives_of_runLowering (c := { c with views := c.views ++ [name] }) hrun)
  | insert table rows | delete table rows =>
    obtain ⟨contents, hadded⟩ := c.addRows_snd table rows _
    obtain rfl := (congrArg Prod.snd hrun).symm.trans hadded
    exact h

/-- **A run of commands** keeps the invariant. -/
theorem viewsPositive_runAll (h : c.lowering.ViewsPositive number)
    (hrun : c.runAll commands = .ok c') : c'.lowering.ViewsPositive number := by
  induction commands generalizing c with
  | nil =>
    obtain rfl := Except.ok.inj hrun
    exact h
  | cons command commands ih =>
    unfold runAll at hrun
    split at hrun
    · next next hnext => exact ih (viewsPositive_run h hnext) hrun
    · cases hrun

/-- Before the first command there are neither tables nor views. -/
theorem viewsPositive_start (number : Nat) : (start options).lowering.ViewsPositive number :=
  ⟨nofun, nofun⟩

/-! ### Compiled programs -/

/-- The passes for whole tables leave a circuit in which all sinks give positive weights. -/
theorem sinksPositive_runPasses (hsound : t.Sound)
    (h : t.ViewsPositive t.circuit.freshNumber) (hbatch : options.incrementalize = false) :
    ∃ circuit, Pass.runAll (passes options) none t.circuit = .ok circuit ∧
      circuit.SinksPositive := by
  obtain ⟨hsimplify, hbuilt⟩ := hsound.built.simplifyFunctions hsound.functions
  obtain ⟨circuit, hremove, -, -, hcopies⟩ :=
    hbuilt.removeOperators (Circuit.supports_ancestors hbuilt.ordered _)
  refine ⟨circuit, ?_, h.sinks.copy hbuilt hcopies (Circuit.nodup_kept _ _ _)⟩
  unfold passes
  rw [hbatch, if_neg Bool.false_ne_true, runAll_cons_of_ok .simplifyFunctions hsimplify,
    runAll_cons_of_ok .deadCode hremove]
  rfl

end Compiler

/-- **Views over multisets are multisets.** If a program has been compiled for whole tables, a step
on tables of positive weights has outputs of positive weights, in whatever state it starts. -/
theorem Program.positive_views {options : Options} {commands : List Command}
    {compiled : Compilation} (hbatch : options.incrementalize = false)
    (hcompile : Program.compile options commands = .ok compiled)
    {tables outs : Tables} {state state' : RunState}
    (htables : ∀ table ∈ tables, ∀ entry ∈ table.2, 0 < entry.2)
    (hstep : compiled.circuit.step tables state = (.ok outs, state')) :
    ∀ view ∈ outs, ∀ entry ∈ view.2, 0 < entry.2 := by
  obtain ⟨c, hrun, hfinish⟩ := Except.bind_eq_ok.mp hcompile
  have hsound : c.lowering.Sound :=
    (Compiler.Reachable.tracks ⟨options, commands,
      congrArg Prod.snd (Compiler.feed_of_runAll hrun)⟩).lowering.small
  -- commands keep the invariant for every number; the pass goes by the one that is fresh at the end
  have hviews : c.lowering.ViewsPositive c.lowering.circuit.freshNumber :=
    Compiler.viewsPositive_runAll (Compiler.viewsPositive_start _) hrun
  have hbatch' : c.options.incrementalize = false := by
    rw [Compiler.options_runAll hrun]
    exact hbatch
  obtain ⟨circuit, hpasses, hsinks⟩ :=
    Compiler.sinksPositive_runPasses hsound hviews hbatch'
  unfold Compiler.finish at hfinish
  rw [hpasses] at hfinish
  obtain rfl := Except.ok.inj hfinish
  exact hsinks.step htables hstep

/-! #### Stock that is not reserved -/

def items : Schema := ⟨[⟨"ITEM", .i32⟩]⟩

/-- The items in stock without those that are reserved. -/
def freeItems : Plan := .setOp .except [.scan "STOCK" items, .scan "RESERVED" items] items

/-- Views of the free items and of their number. -/
def stockProgram : List Command :=
  [.createTable "STOCK" items, .createTable "RESERVED" items,
    .createView "FREE" "q" none freeItems,
    .createView "FREE_COUNT" "q" none
      (.aggregate freeItems [] [⟨.count, none, .i64⟩] ⟨[⟨"COUNT", .i64⟩]⟩)]

/-- Item 3 is reserved twice and not in stock. -/
def stock : Tables :=
  [("STOCK", [(.row [.int 1], 2), (.row [.int 2], 1)]),
    ("RESERVED", [(.row [.int 2], 1), (.row [.int 3], 2)])]

/-- What the views show of it. -/
def stockViews : Tables :=
  [("FREE", [(.row [.int 1], 1)]), ("FREE_COUNT", [(.row [.int 1], 1)])]

/-- What is reserved without being in stock has a negative weight on the way, and none in the
views. -/
theorem positive_stockViews :
    ∃ compiled state, Program.compile .default stockProgram = .ok compiled ∧
      compiled.circuit.step stock .start = (.ok stockViews, state) ∧
      ∀ view ∈ stockViews, ∀ entry ∈ view.2, 0 < entry.2 := by
  have hviews : ((Program.compile .default stockProgram).toOption.bind fun compiled =>
      (compiled.circuit.step stock .start).1.toOption) = some stockViews := by decide +kernel
  obtain ⟨compiled, hcompile, hstep⟩ := Option.bind_eq_some_iff.mp hviews
  rw [Except.toOption_eq_some] at hcompile hstep
  have hstep : compiled.circuit.step stock .start =
      (.ok stockViews, (compiled.circuit.step stock .start).2) := Prod.ext hstep rfl
  exact ⟨compiled, _, hcompile, hstep, Program.positive_views rfl hcompile (by decide) hstep⟩

end DeltaCircuit
