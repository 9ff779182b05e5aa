import DeltaCircuit.Proofs.Assoc
import DeltaCircuit.Proofs.Eval.Admits
import DeltaCircuit.Proofs.Plan.Fold
import DeltaCircuit.Proofs.Plan.RowFunction
import DeltaCircuit.Proofs.ZSetGroups

/-!
# The loop of a fold

One loop over the rows of a group updates the accumulators of all aggregates. No accumulator is read
by the update of another one, so the loop runs them side by side: each one ends with the value that
a run over the group for it alone would give.

* `LoopVariable` — an accumulator, its first value, and what a row and its weight make of a value.
* `LoopVariable.Tracks` — the expressions of the accumulator compute just that.
* `LoopState.foldlM_advance` — rounds for all variables are a run for each of them.
* `LoopState.gives_round`, `LoopState.gives_rounds` — one round of the loop, and all of them.
* `LoopPlan.Realizes`, `foldFunction_applyTo` — the function of a fold gives the row of what the
  aggregates compute from the last values of their variables.
-/

namespace DeltaCircuit

open ExceptT (gives_bind gives_pure gives_discard)
open ZSet (member)

/-! ### Variables of the loop -/

/-- The loop is at an entry of a group of rows of a type. -/
structure InRound (rowType : Ty) (scopes : Scopes) (entry : Value × Int) : Prop where
  admits : rowType.admits entry.1 = true
  row : scopes.find? "v" = some entry.1
  weight : scopes.find? "w" = some (.int entry.2)

/-- An accumulator with its first value, and the value that an entry of the group makes of one. -/
structure LoopVariable where
  accumulator : Accumulator
  start : Value
  step : (entry : Value × Int) → (value : Value) → Except EvalError Value

namespace LoopVariable

def name (x : LoopVariable) : String := x.accumulator.name

/-- The value after the entries of a group, from a given value on. -/
def runFrom (x : LoopVariable) (value : Value) (group : List (Value × Int)) :
    Except EvalError Value :=
  group.foldlM (fun value entry => x.step entry value) value

/-- The last value of the variable. -/
def run (x : LoopVariable) (group : List (Value × Int)) : Except EvalError Value :=
  x.runFrom x.start group

/-- The expressions of the accumulator compute the values of the variable, at every row of a
type. -/
structure Tracks (x : LoopVariable) (rowType : Ty) : Prop where
  init : ∀ scopes, x.accumulator.init.Computes scopes (.ok x.start)
  update : ∀ (scopes : Scopes) (entry : Value × Int) (value : Value),
    InRound rowType scopes entry → scopes.find? x.name = some value →
    x.accumulator.update.Computes scopes (x.step entry value)

/-- The variables have names of their own, which are not those of the row, its weight and the
group. -/
structure Apart (xs : List LoopVariable) : Prop where
  distinct : (xs.map name).Nodup
  unreserved : ∀ x ∈ xs, x.name ≠ "v" ∧ x.name ≠ "w" ∧ x.name ≠ "g"

end LoopVariable

/-! ### States of the loop -/

/-- The variables of the loop with their values. -/
abbrev LoopState := List (LoopVariable × Value)

namespace LoopState

/-- The scope of the variables. -/
def scope (state : LoopState) : List (String × Value) :=
  state.map fun entry => (entry.1.name, entry.2)

/-- The first values. -/
def initial (xs : List LoopVariable) : LoopState := xs.map fun x => (x, x.start)

/-- The values after one more entry of the group. -/
def advance (state : LoopState) (entry : Value × Int) : Except EvalError LoopState :=
  state.mapM fun (x, value) => do return (x, ← x.step entry value)

variable {state state' front : LoopState} {group : List (Value × Int)} {entry : Value × Int}

theorem variables_initial {xs : List LoopVariable} : (initial xs).map Prod.fst = xs := by
  rw [initial, List.map_map]
  exact List.map_id xs

@[simp] theorem scope_append : scope (state ++ state') = scope state ++ scope state' :=
  List.map_append

theorem keys_scope : (scope state).map Prod.fst = (state.map Prod.fst).map LoopVariable.name := by
  rw [scope, List.map_map, List.map_map]
  rfl

/-- A variable is not in scope before it is declared. -/
theorem notMem_scope {x : LoopVariable} {rest : List LoopVariable}
    (hapart : LoopVariable.Apart (front.map Prod.fst ++ x :: rest)) :
    x.name ∉ (scope front).map Prod.fst := by
  have hdistinct := hapart.distinct
  rw [List.map_append, List.nodup_append] at hdistinct
  rw [keys_scope]
  exact fun hmem => hdistinct.2.2 x.name hmem x.name List.mem_cons_self rfl

theorem advance_eq_ok :
    advance state entry = .ok state' ↔
      List.Forall₂ (fun a b => b.1 = a.1 ∧ a.1.step entry a.2 = .ok b.2) state state' := by
  have hitem (a b : LoopVariable × Value) :
      (do return (a.1, ← a.1.step entry a.2) : Except EvalError (LoopVariable × Value)) = .ok b ↔
        b.1 = a.1 ∧ a.1.step entry a.2 = .ok b.2 := by
    rw [Except.bind_eq_ok]
    constructor
    · rintro ⟨value, hvalue, h⟩
      obtain rfl := Except.ok.inj h
      exact ⟨rfl, hvalue⟩
    · rintro ⟨hx, hvalue⟩
      exact ⟨b.2, hvalue, congrArg Except.ok (Prod.ext hx.symm rfl)⟩
  rw [advance, List.mapM_eq_ok]
  constructor
  · exact fun h => h.imp fun a b => (hitem a b).mp
  · exact fun h => h.imp fun a b => (hitem a b).mpr

/-- **Side by side.** Rounds for all variables succeed iff the run for each variable does, and they
give what the runs give. -/
theorem foldlM_advance :
    group.foldlM advance state = .ok state' ↔
      List.Forall₂ (fun a b => b.1 = a.1 ∧ a.1.runFrom a.2 group = .ok b.2) state state' := by
  induction group generalizing state with
  | nil =>
    have hsame (a b : LoopVariable × Value) :
        (b.1 = a.1 ∧ a.1.runFrom a.2 [] = .ok b.2) ↔ a = b := by
      rw [Prod.ext_iff, eq_comm]
      exact and_congr_right fun _ => Except.pure_eq_ok
    simp only [hsame, List.foldlM_nil, Except.pure_eq_ok, List.forall₂_eq_eq_eq]
  | cons entry group ih =>
    rw [List.foldlM_cons, Except.bind_eq_ok]
    simp only [advance_eq_ok, ih]
    rw [← List.forall₂_comp]
    -- item by item, the first step and then the run over the rest
    constructor <;> refine fun h => h.imp fun a c => ?_
    · rintro ⟨b, ⟨hb, hstep⟩, hc, hrest⟩
      rw [hb] at hc hrest
      refine ⟨hc, ?_⟩
      rw [LoopVariable.runFrom, List.foldlM_cons, Except.bind_eq_ok]
      exact ⟨b.2, hstep, hrest⟩
    · rintro ⟨hc, hrun⟩
      rw [LoopVariable.runFrom, List.foldlM_cons, Except.bind_eq_ok] at hrun
      obtain ⟨value, hstep, hrest⟩ := hrun
      exact ⟨(a.1, value), ⟨rfl, hstep⟩, hc, hrest⟩

/-- All rounds from the first values on give the last values. -/
theorem foldlM_initial {xs : List LoopVariable} :
    group.foldlM advance (initial xs) = .ok state ↔
      List.Forall₂ (fun x pair => pair.1 = x ∧ x.run group = .ok pair.2) xs state := by
  rw [foldlM_advance, initial, List.forall₂_map_left_iff]
  rfl

theorem variables_of_advance (h : advance state entry = .ok state') :
    state'.map Prod.fst = state.map Prod.fst := by
  rw [← List.forall₂_eq_eq_eq, List.forall₂_map_left_iff, List.forall₂_map_right_iff]
  exact ((advance_eq_ok.mp h).imp fun _ _ hab => hab.1).flip

/-! ### One round -/

/-- The scopes of a round: a row and its weight, over the variables of the loop. -/
def roundScopes (entry : Value × Int) (state : LoopState) (outer : Scopes) : Scopes :=
  [("v", entry.1), ("w", .int entry.2)] :: state.scope :: outer

section

variable {rowType : Ty} {x : LoopVariable} {value : Value} {rest : LoopState} {outer s : Scopes}

/-- A variable is found below the scopes of the block and of the row. -/
theorem find?_round (hname : x.name ≠ "v" ∧ x.name ≠ "w")
    (hfront : x.name ∉ (scope front).map Prod.fst) :
    Scopes.find? ([] :: roundScopes entry (front ++ (x, value) :: rest) outer) x.name =
      some value := by
  have hscope : scope (front ++ (x, value) :: rest) =
      scope front ++ (x.name, value) :: scope rest := scope_append
  rw [roundScopes, hscope]
  simp only [Scopes.find?, Assoc.get?, if_neg hname.1.symm, if_neg hname.2.symm, Option.none_or]
  rw [Assoc.get?_append_cons hfront, Option.some_or]

theorem update_round (hname : x.name ≠ "v" ∧ x.name ≠ "w")
    (hfront : x.name ∉ (scope front).map Prod.fst) (value' : Value) :
    Scopes.update ([] :: roundScopes entry (front ++ (x, value) :: rest) outer) x.name value' =
      [] :: roundScopes entry (front ++ (x, value') :: rest) outer := by
  have hscope (v : Value) : scope (front ++ (x, v) :: rest) =
      scope front ++ (x.name, v) :: scope rest := scope_append
  rw [roundScopes, roundScopes, hscope, hscope]
  simp only [Scopes.update, Assoc.get?, if_neg hname.1.symm, if_neg hname.2.symm]
  rw [Assoc.get?_append_cons hfront, Assoc.set_append_cons hfront]
  rfl

theorem assign_round (hname : x.name ≠ "v" ∧ x.name ≠ "w")
    (hfront : x.name ∉ (scope front).map Prod.fst) (value' : Value) :
    Scopes.assign ([] :: roundScopes entry (front ++ (x, value) :: rest) outer)
        x.accumulator.value value' =
      .ok ([] :: roundScopes entry (front ++ (x, value') :: rest) outer) := by
  have hplace : x.accumulator.value.place? = .ok (x.name, []) := rfl
  rw [Scopes.assign, hplace, Except.ok_bind]
  dsimp only
  rw [find?_round hname hfront]
  exact congrArg Except.ok (update_round hname hfront value')

/-- An update changes its own variable, to what the variable makes of the entry. -/
theorem gives_assignment {e : Expr} {u : Value} (htracks : x.Tracks rowType)
    (hrow : rowType.admits entry.1 = true) (hname : x.name ≠ "v" ∧ x.name ≠ "w")
    (hfront : x.name ∉ (scope front).map Prod.fst)
    (h : Expr.assign x.accumulator.value x.accumulator.update = .ok e) :
    e.eval.Gives ([] :: roundScopes entry (front ++ (x, value) :: rest) outer) u s ↔
      u = .unit ∧ ∃ value', x.step entry value = .ok value' ∧
        s = [] :: roundScopes entry (front ++ (x, value') :: rest) outer := by
  have hcomputes := htracks.update ([] :: roundScopes entry (front ++ (x, value) :: rest) outer)
    entry value ⟨hrow, rfl, rfl⟩ (find?_round hname hfront)
  rw [Expr.assign_eq_ok h, Expr.ofForm, Expr.gives_assign]
  refine and_congr_right fun _ => ?_
  constructor
  · rintro ⟨value', t, hvalue, hassign⟩
    obtain rfl := hcomputes.keeps.eq_of_gives hvalue
    rw [assign_round hname hfront value'] at hassign
    exact ⟨value', (hcomputes.gives_iff value').mp hvalue, (Except.ok.inj hassign).symm⟩
  · rintro ⟨value', hvalue, rfl⟩
    exact ⟨value', _, (hcomputes.gives_iff value').mpr hvalue, assign_round hname hfront value'⟩

/-- The updates of a round, where those of the variables in front have been made. -/
theorem gives_updates (front : LoopState) {statements : List Statement} {state : LoopState}
    (hrow : rowType.admits entry.1 = true) (htracks : ∀ pair ∈ state, pair.1.Tracks rowType)
    (hapart : LoopVariable.Apart (front.map Prod.fst ++ state.map Prod.fst))
    (h : List.Forall₂ (fun pair statement => pair.1.accumulator.assignment = .ok statement)
      state statements) :
    (Statement.runAll statements).Gives ([] :: roundScopes entry (front ++ state) outer) () s ↔
      ∃ state', advance state entry = .ok state' ∧
        s = [] :: roundScopes entry (front ++ state') outer := by
  -- on the updates still to be made; the variables in front have their new values
  induction h generalizing front s with
  | nil =>
    rw [Statement.gives_runAll_nil]
    constructor
    · rintro rfl
      exact ⟨[], rfl, rfl⟩
    · rintro ⟨state', hstate', rfl⟩
      obtain rfl := Except.ok.inj hstate'
      rfl
  | @cons pair statement state statements hstatement _ ih =>
    obtain ⟨x, value⟩ := pair
    obtain ⟨e, he, hs⟩ := Except.bind_eq_ok.mp hstatement
    obtain rfl := Except.ok.inj hs
    rw [List.map_cons] at hapart
    obtain ⟨hv, hw, -⟩ := hapart.unreserved x (List.mem_append_right _ List.mem_cons_self)
    have hfront := notMem_scope hapart
    have hx := htracks (x, value) List.mem_cons_self
    -- the updates that follow see the new value of the first variable
    have hrest (value' : Value) := @ih s (front ++ [(x, value')])
      (fun pair hpair => htracks pair (List.mem_cons_of_mem _ hpair))
      (by rwa [List.map_append, List.append_assoc])
    simp only [List.append_assoc, List.cons_append, List.nil_append] at hrest
    rw [Statement.gives_runAll_eval]
    constructor
    · rintro ⟨u, t, hu, h⟩
      obtain ⟨rfl, value', hvalue, rfl⟩ := (gives_assignment hx hrow ⟨hv, hw⟩ hfront he).mp hu
      obtain ⟨state', hstate', rfl⟩ := (hrest value').mp h
      exact ⟨(x, value') :: state',
        advance_eq_ok.mpr (.cons ⟨rfl, hvalue⟩ (advance_eq_ok.mp hstate')), rfl⟩
    · rintro ⟨_, hstate', rfl⟩
      cases advance_eq_ok.mp hstate' with
      | @cons _ pair' _ state' hvalue hrest' =>
        obtain ⟨_, value'⟩ := pair'
        obtain ⟨rfl, hvalue⟩ := hvalue
        exact ⟨.unit, _, (gives_assignment hx hrow ⟨hv, hw⟩ hfront he).mpr
          ⟨rfl, value', hvalue, rfl⟩, (hrest value').mpr ⟨state', advance_eq_ok.mpr hrest', rfl⟩⟩

end

/-! ### All rounds -/

/-- The pattern of the loop takes a member of a group apart into its row and its weight. -/
def rowPattern : Pattern := .tuple [.identifier "v" false, .identifier "w" false]

/-- One round of the loop over a group. -/
def round (statements : List Statement) (item : Value) : Eval Unit :=
  Eval.inScope do
    let fits ← rowPattern.bind item
    if fits then discard (Expr.block statements none).eval
    else throw (.itemMismatch item rowPattern)

theorem gives_rowPattern {s : Scopes} :
    (rowPattern.bind (member entry)).Gives ([] :: s) true
      ([("v", entry.1), ("w", .int entry.2)] :: s) :=
  rfl

section

variable {rowType : Ty} {xs : List LoopVariable} {statements : List Statement} {outer s : Scopes}

/-- **One round.** A round makes of each variable what the variable makes of the entry, and it fails
iff that fails for one of them. -/
theorem gives_round (hapart : LoopVariable.Apart xs) (htracks : ∀ x ∈ xs, x.Tracks rowType)
    (hstatements : (xs.map LoopVariable.accumulator).mapM Accumulator.assignment = .ok statements)
    (hstate : state.map Prod.fst = xs) (hrow : rowType.admits entry.1 = true) :
    (round statements (member entry)).Gives (scope state :: outer) () s ↔
      ∃ state', advance state entry = .ok state' ∧ s = scope state' :: outer := by
  have hassignments : List.Forall₂
      (fun pair statement => pair.1.accumulator.assignment = .ok statement) state statements := by
    rwa [← hstate, List.map_map, List.mapM_eq_ok, List.forall₂_map_left_iff] at hstatements
  have hupdates (t : Scopes) :
      (Statement.runAll statements).Gives ([] :: roundScopes entry state outer) () t ↔
        ∃ state', advance state entry = .ok state' ∧ t = [] :: roundScopes entry state' outer :=
    gives_updates [] hrow
      (fun pair hpair => htracks pair.1 (hstate ▸ List.mem_map_of_mem hpair)) (hstate ▸ hapart)
      hassignments
  rw [round, Eval.gives_inScope]
  constructor
  · rintro ⟨t, h, rfl⟩
    obtain ⟨fits, t', hbind, h⟩ := gives_bind.mp h
    obtain ⟨rfl, rfl⟩ := gives_rowPattern.unique hbind
    obtain ⟨v, hv⟩ := gives_discard.mp h
    obtain ⟨-, t', hstatements, rfl⟩ := Expr.gives_effect.mp hv
    obtain ⟨state', hstate', rfl⟩ := (hupdates t').mp hstatements
    exact ⟨state', hstate', rfl⟩
  · rintro ⟨state', hstate', rfl⟩
    refine ⟨roundScopes entry state' outer,
      gives_bind.mpr ⟨true, _, gives_rowPattern, gives_discard.mpr ⟨.unit, ?_⟩⟩, rfl⟩
    exact Expr.gives_effect.mpr ⟨rfl, _, (hupdates _).mpr ⟨state', hstate', rfl⟩, rfl⟩

/-- **All rounds.** -/
theorem gives_rounds (hapart : LoopVariable.Apart xs) (htracks : ∀ x ∈ xs, x.Tracks rowType)
    (hstatements : (xs.map LoopVariable.accumulator).mapM Accumulator.assignment = .ok statements)
    (hstate : state.map Prod.fst = xs) (hrows : ∀ entry ∈ group, rowType.admits entry.1 = true) :
    (Eval.forEach (round statements) (group.map member)).Gives (scope state :: outer) () s ↔
      ∃ state', group.foldlM advance state = .ok state' ∧ s = scope state' :: outer := by
  -- on the group; a round changes the values of the variables, but not which variables there are
  induction group generalizing state with
  | nil =>
    rw [List.map_nil, Eval.forEach, gives_pure]
    constructor
    · rintro ⟨-, rfl⟩
      exact ⟨state, rfl, rfl⟩
    · rintro ⟨state', hstate', rfl⟩
      obtain rfl := Except.ok.inj hstate'
      exact ⟨rfl, rfl⟩
  | cons entry group ih =>
    have hround (t : Scopes) :
        (round statements (member entry)).Gives (scope state :: outer) () t ↔
          ∃ state', advance state entry = .ok state' ∧ t = scope state' :: outer :=
      gives_round hapart htracks hstatements hstate (hrows entry List.mem_cons_self)
    have hrest (state' : LoopState) (hstep : advance state entry = .ok state') :=
      @ih state' ((variables_of_advance hstep).trans hstate)
        fun entry hentry => hrows entry (List.mem_cons_of_mem _ hentry)
    rw [List.map_cons, Eval.forEach, gives_bind, List.foldlM_cons]
    simp only [Except.bind_eq_ok]
    constructor
    · rintro ⟨⟨⟩, t, hfirst, h⟩
      obtain ⟨middle, hmiddle, rfl⟩ := (hround t).mp hfirst
      obtain ⟨state', hstate', rfl⟩ := (hrest middle hmiddle).mp h
      exact ⟨state', ⟨middle, hmiddle, hstate'⟩, rfl⟩
    · rintro ⟨state', ⟨middle, hmiddle, hstate'⟩, rfl⟩
      exact ⟨(), _, (hround _).mpr ⟨middle, hmiddle, rfl⟩,
        (hrest middle hmiddle).mpr ⟨state', hstate', rfl⟩⟩

/-- The variables are declared one after another, each with its first value. -/
theorem gives_declarations (front : LoopState) (htracks : ∀ x ∈ xs, x.Tracks rowType)
    (hapart : LoopVariable.Apart (front.map Prod.fst ++ xs)) :
    (Statement.runAll ((xs.map LoopVariable.accumulator).map Accumulator.declaration ++
        statements)).Gives (scope front :: outer) () s ↔
      (Statement.runAll statements).Gives (scope (front ++ initial xs) :: outer) () s := by
  -- on the variables still to be declared; the scope holds those in front
  induction xs generalizing front with
  | nil =>
    have hfront : front ++ initial [] = front := List.append_nil front
    rw [hfront]
    rfl
  | cons x xs ih =>
    have hinit := (htracks x List.mem_cons_self).init (scope front :: outer)
    have hfront := notMem_scope hapart
    -- a new name goes to the end of the scope
    have hbind : Scopes.bind (scope front :: outer) x.name x.start =
        scope (front ++ [(x, x.start)]) :: outer := by
      rw [Scopes.bind, Assoc.set_of_notMem hfront, scope_append]
      rfl
    have hrest := ih (front ++ [(x, x.start)])
      (fun y hy => htracks y (List.mem_cons_of_mem _ hy))
      (by rwa [List.map_append, List.append_assoc])
    simp only [List.append_assoc, List.cons_append, List.nil_append] at hrest
    rw [List.map_cons, List.map_cons, List.cons_append, initial, List.map_cons]
    refine Statement.gives_runAll_binding.trans (Iff.trans ?_ hrest)
    constructor
    · rintro ⟨v, t, hv, h⟩
      obtain rfl := hinit.keeps.eq_of_gives hv
      obtain rfl := Except.ok.inj ((hinit.gives_iff v).mp hv)
      exact hbind ▸ h
    · intro h
      exact ⟨x.start, _, (hinit.gives_iff _).mpr rfl, hbind.symm ▸ h⟩

/-- The loop over the group that is in scope. -/
def overGroup (groupType : Ty) (statements : List Statement) : Expr :=
  Expr.ofForm (some .unit) (.forLoop rowPattern (.var "g" groupType) (.block statements none))

theorem gives_overGroup {groupType : Ty} {u : Value}
    (hapart : LoopVariable.Apart xs) (htracks : ∀ x ∈ xs, x.Tracks rowType)
    (hstatements : (xs.map LoopVariable.accumulator).mapM Accumulator.assignment = .ok statements)
    (hstate : state.map Prod.fst = xs) (hrows : ∀ entry ∈ group, rowType.admits entry.1 = true)
    (hgroup : Scopes.find? (scope state :: outer) "g" = some (.vec (group.map member))) :
    (overGroup groupType statements).eval.Gives (scope state :: outer) u s ↔
      u = .unit ∧ ∃ state', group.foldlM advance state = .ok state' ∧
        s = scope state' :: outer := by
  have hrounds (t : Scopes) :
      (Eval.forEach (round statements) (group.map member)).Gives (scope state :: outer) () t ↔
        ∃ state', group.foldlM advance state = .ok state' ∧ t = scope state' :: outer :=
    gives_rounds hapart htracks hstatements hstate hrows
  rw [overGroup, Expr.ofForm, Expr.eval, gives_bind]
  constructor
  · rintro ⟨v, t, hv, h⟩
    obtain ⟨hfind, rfl⟩ := Expr.gives_var.mp hv
    obtain rfl := Option.some.inj (hgroup.symm.trans hfind)
    obtain ⟨items, t, hitems, h⟩ := gives_bind.mp h
    obtain ⟨hfound, rfl⟩ := Eval.gives_ofExcept.mp hitems
    obtain rfl := Except.ok.inj hfound
    obtain ⟨⟨⟩, t, hloop, h⟩ := gives_bind.mp h
    obtain ⟨rfl, rfl⟩ := gives_pure.mp h
    exact ⟨rfl, (hrounds t).mp hloop⟩
  · rintro ⟨rfl, hrun⟩
    exact ⟨_, _, Expr.gives_var.mpr ⟨hgroup, rfl⟩, gives_bind.mpr
      ⟨_, _, Eval.gives_ofExcept.mpr ⟨rfl, rfl⟩, gives_bind.mpr
        ⟨(), s, (hrounds s).mpr hrun, gives_pure.mpr ⟨rfl, rfl⟩⟩⟩⟩

/-- A variable has the value that the state gives it. -/
theorem find?_of_mem {x : LoopVariable} {value : Value}
    (hapart : LoopVariable.Apart (state.map Prod.fst)) (hmem : (x, value) ∈ state) :
    Scopes.find? (scope state :: outer) x.name = some value := by
  obtain ⟨front, rest, rfl⟩ := List.append_of_mem hmem
  rw [List.map_append, List.map_cons] at hapart
  have hscope : scope (front ++ (x, value) :: rest) =
      scope front ++ (x.name, value) :: scope rest := scope_append
  rw [Scopes.find?, hscope, Assoc.get?_append_cons (notMem_scope hapart), Option.some_or]

/-- No variable of the loop hides the group. -/
theorem find?_group {v : Value} (hapart : LoopVariable.Apart (state.map Prod.fst))
    (hgroup : Scopes.find? outer "g" = some v) :
    Scopes.find? (scope state :: outer) "g" = some v := by
  have hnone : Assoc.get? (scope state) "g" = none := by
    rw [← Option.not_isSome_iff_eq_none, Assoc.isSome_get?_iff, keys_scope]
    intro hmem
    obtain ⟨x, hx, hname⟩ := List.mem_map.mp hmem
    exact (hapart.unreserved x hx).2.2 hname
  rw [Scopes.find?, hnone, Option.none_or, hgroup]

/-- **The body of a fold.** The declarations and the loop lead to the last values of the variables,
if all runs succeed, and the result is evaluated there. -/
theorem gives_foldBody {groupType : Ty} {result : Expr} {v : Value}
    (hapart : LoopVariable.Apart xs) (htracks : ∀ x ∈ xs, x.Tracks rowType)
    (hstatements : (xs.map LoopVariable.accumulator).mapM Accumulator.assignment = .ok statements)
    (hrows : ∀ entry ∈ group, rowType.admits entry.1 = true)
    (hgroup : Scopes.find? outer "g" = some (.vec (group.map member))) :
    (∃ s, (Expr.block ((xs.map LoopVariable.accumulator).map Accumulator.declaration ++
        [.eval (overGroup groupType statements)]) (some result)).eval.Gives outer v s) ↔
      ∃ state s, group.foldlM advance (initial xs) = .ok state ∧
        result.eval.Gives (scope state :: outer) v s := by
  have hloop (u : Value) (t : Scopes) :
      (overGroup groupType statements).eval.Gives (scope (initial xs) :: outer) u t ↔
        u = .unit ∧ ∃ state, group.foldlM advance (initial xs) = .ok state ∧
          t = scope state :: outer :=
    gives_overGroup hapart htracks hstatements variables_initial hrows
      (find?_group (variables_initial.symm ▸ hapart) hgroup)
  have hdeclared (t : Scopes) :
      (Statement.runAll ((xs.map LoopVariable.accumulator).map Accumulator.declaration ++
          [.eval (overGroup groupType statements)])).Gives ([] :: outer) () t ↔
        (Statement.runAll [.eval (overGroup groupType statements)]).Gives
          (scope (initial xs) :: outer) () t :=
    gives_declarations [] htracks hapart
  unfold Expr.block Expr.ofForm
  simp only [Expr.gives_block, hdeclared, Statement.gives_runAll_eval, hloop,
    Statement.gives_runAll_nil]
  constructor
  · rintro ⟨s, t, t', ⟨u, _, ⟨-, state, hstate, rfl⟩, rfl⟩, hresult, -⟩
    exact ⟨state, t', hstate, hresult⟩
  · rintro ⟨state, t', hstate, hresult⟩
    exact ⟨t'.tail, scope state :: outer, t', ⟨.unit, _, ⟨rfl, state, hstate, rfl⟩, rfl⟩,
      hresult, rfl⟩

end

end LoopState

/-! ### The function of a fold -/

/-- How the loop computes an aggregate: by its variables, and by what it makes of their last
values. -/
structure LoopPlan where
  vars : List LoopVariable
  finish : List Value → Except EvalError Value

namespace LoopPlan

/-- What the aggregate gives for a group. -/
def outcome (p : LoopPlan) (group : List (Value × Int)) : Except EvalError Value := do
  p.finish (← p.vars.mapM fun x => x.run group)

/-- The accumulators of the plan of an aggregate follow the variables, and its result computes what
is made of their values. -/
structure Realizes (p : LoopPlan) (rowType : Ty) (plan : AggregatePlan) : Prop where
  accumulators : plan.accumulators = p.vars.map LoopVariable.accumulator
  tracks : ∀ x ∈ p.vars, x.Tracks rowType
  result : ∀ (scopes : Scopes) (group : List (Value × Int)) (values : List Value),
    (∀ entry ∈ group, rowType.admits entry.1 = true) →
    List.Forall₂ (fun x value => scopes.find? x.name = some value ∧ x.run group = .ok value)
      p.vars values →
    plan.result.Computes scopes (p.finish values)

variable {p : LoopPlan} {ps : List LoopPlan} {group : List (Value × Int)} {rowType keyType : Ty}

theorem exists_run_of_outcome {u : Value} (h : p.outcome group = .ok u) {x : LoopVariable}
    (hx : x ∈ p.vars) : ∃ value, x.run group = .ok value := by
  obtain ⟨values, hvalues, -⟩ := Except.bind_eq_ok.mp h
  obtain ⟨value, -, hvalue⟩ := (List.mapM_eq_ok.mp hvalues).flip.exists_of_mem_right hx
  exact ⟨value, hvalue⟩

/-- The accumulators of all aggregates are those of all variables. -/
theorem accumulators_eq {plans : List AggregatePlan}
    (h : List.Forall₂ (fun p plan => Realizes p rowType plan) ps plans) :
    plans.flatMap AggregatePlan.accumulators =
      (ps.flatMap LoopPlan.vars).map LoopVariable.accumulator := by
  rw [List.map_flatMap, List.flatMap_def, List.flatMap_def]
  congr 1
  rw [← List.forall₂_eq_eq_eq, List.forall₂_map_left_iff, List.forall₂_map_right_iff]
  exact (h.imp fun _ _ hp => hp.accumulators).flip

/-- After the loop, the result of an aggregate computes what the aggregate gives. -/
theorem Realizes.computes_outcome {plan : AggregatePlan} {state : LoopState} {outer : Scopes}
    (h : p.Realizes rowType plan) (hapart : LoopVariable.Apart (state.map Prod.fst))
    (hrows : ∀ entry ∈ group, rowType.admits entry.1 = true)
    (hrun : ∀ x ∈ p.vars, ∃ value, (x, value) ∈ state ∧ x.run group = .ok value) :
    plan.result.Computes (state.scope :: outer) (p.outcome group) := by
  obtain ⟨values, hvalues⟩ := List.exists_forall₂ hrun
  have hruns : p.vars.mapM (fun x => x.run group) = .ok values :=
    List.mapM_eq_ok.mpr (hvalues.imp fun _ _ hvalue => hvalue.2)
  rw [outcome, hruns, Except.ok_bind]
  exact h.result _ group values hrows
    (hvalues.imp fun _ _ hvalue => ⟨LoopState.find?_of_mem hapart hvalue.1, hvalue.2⟩)

/-- The results of all aggregates make the row of what they give. -/
theorem computes_outcomes {plans : List AggregatePlan} {state : LoopState} {outer : Scopes}
    {type : Option Ty} (h : List.Forall₂ (fun p plan => Realizes p rowType plan) ps plans)
    (hapart : LoopVariable.Apart (ps.flatMap vars))
    (hrows : ∀ entry ∈ group, rowType.admits entry.1 = true)
    (hstate : group.foldlM LoopState.advance (.initial (ps.flatMap vars)) = .ok state) :
    (Expr.ofForm type (.tuple (plans.map AggregatePlan.result))).Computes (state.scope :: outer)
      (.row <$> ps.mapM fun p => p.outcome group) := by
  have hruns := LoopState.foldlM_initial.mp hstate
  have hvars : state.map Prod.fst = ps.flatMap vars := by
    rw [← List.forall₂_eq_eq_eq, List.forall₂_map_left_iff]
    exact (hruns.imp fun _ _ hx => hx.1).flip
  have hplanned : List.Forall₂ (fun p plan => p ∈ ps ∧ p.Realizes rowType plan) ps plans :=
    (List.forall₂_and_left _ _).mpr ⟨fun _ => id, h⟩
  refine Expr.computes_row (.inl rfl) (List.forall₂_map_right_iff.mpr (hplanned.imp ?_))
  rintro p plan ⟨hp, hplan⟩
  refine hplan.computes_outcome (hvars ▸ hapart) hrows fun x hx => ?_
  obtain ⟨⟨y, value⟩, hpair, rfl, hvalue⟩ :=
    hruns.flip.exists_of_mem_right (List.mem_flatMap.mpr ⟨p, hp, hx⟩)
  exact ⟨value, hpair, hvalue⟩

/-- If all aggregates give something, so do the runs of all variables. -/
theorem exists_state {values : List Value}
    (h : List.Forall₂ (fun p u => outcome p group = .ok u) ps values) :
    ∃ state, group.foldlM LoopState.advance (.initial (ps.flatMap vars)) = .ok state := by
  have hruns : ∀ x ∈ ps.flatMap vars, ∃ pair : LoopVariable × Value,
      pair.1 = x ∧ x.run group = .ok pair.2 := by
    intro x hx
    obtain ⟨p, hp, hxp⟩ := List.mem_flatMap.mp hx
    obtain ⟨u, -, hu⟩ := h.flip.exists_of_mem_right hp
    obtain ⟨value, hvalue⟩ := exists_run_of_outcome hu hxp
    exact ⟨(x, value), rfl, hvalue⟩
  obtain ⟨state, hstate⟩ := List.exists_forall₂ hruns
  exact ⟨state, LoopState.foldlM_initial.mpr hstate⟩

theorem tracks_of_realizes {plans : List AggregatePlan}
    (h : List.Forall₂ (fun p plan => Realizes p rowType plan) ps plans) :
    ∀ x ∈ ps.flatMap vars, x.Tracks rowType := by
  intro x hx
  obtain ⟨p, hp, hx⟩ := List.mem_flatMap.mp hx
  obtain ⟨plan, -, hplan⟩ := h.flip.exists_of_mem_right hp
  exact hplan.tracks x hx

end LoopPlan

/-- **Folds, by their variables.** The function of a fold gives the row of what the aggregates
give, and it fails iff one of them does. -/
theorem foldFunction_applyTo {keyType rowType resultType : Ty} {plans : List AggregatePlan}
    {ps : List LoopPlan} {group : List (Value × Int)} {key : Value}
    (h : foldFunction keyType rowType calls = .ok (f, resultType))
    (hplans : planAll (groupRow rowType) calls = .ok plans)
    (hrealizes : List.Forall₂ (fun p plan => p.Realizes rowType plan) ps plans)
    (hapart : LoopVariable.Apart (ps.flatMap LoopPlan.vars))
    (hrows : ∀ entry ∈ group, rowType.admits entry.1 = true) :
    f.applyTo [key, .vec (group.map member)] = .ok v ↔
      ∃ values, v = .row values ∧
        List.Forall₂ (fun p u => p.outcome group = .ok u) ps values := by
  -- the parts that the function is put together from
  obtain ⟨plans', hplans', h⟩ := Except.bind_eq_ok.mp h
  obtain rfl := Except.ok.inj (hplans.symm.trans hplans')
  dsimp only at h
  rw [ofTerm_eq_ok] at h
  obtain ⟨statements, hstatements, h⟩ := Except.bind_eq_ok.mp h
  obtain ⟨loop, hloop, h⟩ := Except.bind_eq_ok.mp h
  obtain ⟨result, hresult, h⟩ := Except.bind_eq_ok.mp h
  obtain ⟨found, -, h⟩ := Except.bind_eq_ok.mp h
  obtain ⟨function, hfunction, hpair⟩ := Except.bind_eq_ok.mp h
  obtain ⟨rfl, -⟩ := Prod.mk.inj (Except.ok.inj hpair)
  obtain ⟨types, -, rfl⟩ := Expr.tuple_eq_ok hresult
  obtain rfl := Expr.closure_eq_ok hfunction
  obtain rfl := Expr.forLoop_eq_ok hloop
  rw [LoopPlan.accumulators_eq hrealizes] at hstatements ⊢
  have hgroup : Scopes.find? [[("k", key), ("g", .vec (group.map member))]] "g" =
      some (.vec (group.map member)) := rfl
  have hbind : (Parameter.bindAll [.named "k" (.byRef keyType),
      .named "g" (.byRef (Circuit.groupType rowType))] [key, .vec (group.map member)]).Gives
        [[]] () [[("k", key), ("g", .vec (group.map member))]] := rfl
  rw [applyTo_closure_iff rfl hbind]
  -- the call runs the loop, and then evaluates the results
  refine (LoopState.gives_foldBody hapart (LoopPlan.tracks_of_realizes hrealizes) hstatements hrows
    hgroup).trans ?_
  -- the results are read off the variables, and no longer depend on the arguments
  generalize [[("k", key), ("g", Value.vec (group.map member))]] = outer
  have hcomputes (state : LoopState)
      (hstate : group.foldlM LoopState.advance (.initial (ps.flatMap LoopPlan.vars)) = .ok state) :
      (Expr.ofForm (some (.tuple types)) (.tuple (plans.map AggregatePlan.result))).Computes
        (state.scope :: outer) (.row <$> ps.mapM fun p => p.outcome group) :=
    LoopPlan.computes_outcomes hrealizes hapart hrows hstate
  constructor
  · rintro ⟨state, s, hstate, hresult⟩
    obtain rfl := (hcomputes state hstate).keeps.eq_of_gives hresult
    obtain ⟨values, hvalues, rfl⟩ :=
      Except.functor_map_eq_ok.mp (((hcomputes state hstate).gives_iff v).mp hresult)
    exact ⟨values, rfl, List.mapM_eq_ok.mp hvalues⟩
  · rintro ⟨values, rfl, hvalues⟩
    obtain ⟨state, hstate⟩ := LoopPlan.exists_state hvalues
    exact ⟨state, _, hstate, ((hcomputes state hstate).gives_iff _).mpr
      (Except.functor_map_eq_ok.mpr ⟨values, List.mapM_eq_ok.mpr hvalues, rfl⟩)⟩

end DeltaCircuit
