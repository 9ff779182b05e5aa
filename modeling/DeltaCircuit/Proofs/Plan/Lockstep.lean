import DeltaCircuit.Plan.Lowering
import DeltaCircuit.Proofs.Assoc
import DeltaCircuit.Proofs.Circuit.Embedding
import DeltaCircuit.Proofs.Plan.Functions

/-!
# Lowering beside extra operators

A plan is lowered in the same way whether or not extra operators stand in between: it fails in both
places or in neither, and appends operators that correspond. What it has appended when it fails are
extra operators themselves.

* `Lowering.Embeds` — a state of lowering inside a larger one.
* `Lower.Lockstep` — two steps of lowering that keep two such states together.
* `Plan.lockstep_lower` — a plan is in lockstep with itself, by induction on the plan.
-/

namespace DeltaCircuit

/-! ### States of lowering -/

/-- The circuit of a state of lowering is built, by functions that can be simplified. -/
structure Lowering.Sound (t : Lowering) : Prop where
  built : t.circuit.Built
  functions : t.circuit.EveryFunction Expr.Simplifiable

/-- The table with its source renamed. -/
def Table.rename (o : Nat → Nat) (table : Table) : Table := ⟨o table.source, table.schema⟩

/-- **Embedding of states.** The second state is the first one with extra operators in between. -/
structure Lowering.Embeds (o : Nat → Nat) (t s : Lowering) : Prop where
  circuit : Circuit.Embeds o t.circuit s.circuit
  small : t.Sound
  large : s.Sound
  tables : s.tables = t.tables.map fun entry => (entry.1, entry.2.rename o)
  sources : ∀ entry ∈ t.tables, entry.2.source < t.circuit.size

/-- A circuit with further operators at its end, none of which is a source or a sink. -/
inductive Circuit.Grows : Circuit → Circuit → Prop
  | refl (c : Circuit) : Grows c c
  | push {c c' : Circuit} {op : Operator} :
      Grows c c' → op.kind.IsInternal → Grows c (c'.push op)

theorem Circuit.Grows.trans {c c' c'' : Circuit} (h : Grows c c') (h' : Grows c' c'') :
    Grows c c'' := by
  induction h' with
  | refl => exact h
  | push _ hkind ih => exact .push ih hkind

theorem Circuit.Grows.size_le {c c' : Circuit} (h : Grows c c') : c.size ≤ c'.size := by
  induction h with
  | refl => exact Nat.le_refl _
  | push _ _ ih => exact Nat.le_trans ih (by rw [size_push]; omega)

/-- What a circuit has grown by are extra operators. -/
theorem Circuit.Embeds.of_grows {o : Nat → Nat} {t t' s : Circuit} (hgrows : t.Grows t')
    (h : Embeds o t' s) : ∃ o', (∀ i < t.size, o' i = o i) ∧ Embeds o' t s := by
  induction hgrows generalizing o with
  | refl => exact ⟨o, fun _ _ => rfl, h⟩
  | @push t' op hgrows hkind ih =>
    obtain ⟨o', hsame, h'⟩ := h.of_push hkind
    obtain ⟨o'', hsame', h''⟩ := ih h'
    refine ⟨o'', fun i hi => (hsame' i hi).trans (hsame i ?_), h''⟩
    exact Nat.lt_of_lt_of_le hi hgrows.size_le

/-- A state of lowering that has grown by operators in between. -/
structure Lowering.Grows (t t' : Lowering) : Prop where
  circuit : t.circuit.Grows t'.circuit
  tables : t'.tables = t.tables

theorem Lowering.Grows.refl (t : Lowering) : t.Grows t := ⟨.refl _, rfl⟩

theorem Lowering.Grows.trans {t t' t'' : Lowering} (h : t.Grows t') (h' : t'.Grows t'') :
    t.Grows t'' :=
  ⟨h.circuit.trans h'.circuit, h'.tables.trans h.tables⟩

/-- A state that has grown on both sides is, on the larger side, one with more extra operators. -/
theorem Lowering.Embeds.of_grows {o : Nat → Nat} {t t' s : Lowering} (ht : t.Sound)
    (hsources : ∀ entry ∈ t.tables, entry.2.source < t.circuit.size) (hgrows : t.Grows t')
    (h : Embeds o t' s) : ∃ o', Embeds o' t s := by
  obtain ⟨o', hsame, hcircuit⟩ := h.circuit.of_grows hgrows.circuit
  refine ⟨o', hcircuit, ht, h.large, ?_, hsources⟩
  rw [h.tables, hgrows.tables]
  refine List.map_congr_left fun entry hentry => ?_
  rw [Table.rename, Table.rename, hsame _ (hsources entry hentry)]

/-! ### Steps in lockstep -/

/-- Two outcomes of the same kind: related results, or errors. -/
inductive SameOutcome {ε α β : Type} (R : α → β → Prop) : Except ε α → Except ε β → Prop
  | ok {a : α} {b : β} : R a b → SameOutcome R (.ok a) (.ok b)
  | error (e e' : ε) : SameOutcome R (.error e) (.error e')

theorem SameOutcome.imp {ε α β : Type} {R T : α → β → Prop} {x : Except ε α} {y : Except ε β}
    (h : SameOutcome R x y) (himp : ∀ a b, R a b → T a b) : SameOutcome T x y := by
  cases h with
  | ok hab => exact .ok (himp _ _ hab)
  | error e e' => exact .error e e'

namespace Lower

variable {o : Nat → Nat} {α β γ δ : Type} {R : α → β → Prop} {S : γ → δ → Prop}

/-- **Lockstep.** From states of which the second is the first one with extra operators, two steps
have the same outcome and lead to such states again; both append operators in between only. -/
structure Stays (o : Nat → Nat) (R : α → β → Prop) (t : Lowering)
    (x : Except CompileError α × Lowering) (y : Except CompileError β × Lowering) : Prop where
  outcome : SameOutcome R x.1 y.1
  embeds : Lowering.Embeds o x.2 y.2
  grows : t.Grows x.2

def Lockstep (o : Nat → Nat) (R : α → β → Prop) (x : Lower α) (y : Lower β) : Prop :=
  ∀ t s, Lowering.Embeds o t s → Stays o R t (x t) (y s)

namespace Lockstep

theorem pure {a : α} {b : β} (h : R a b) : Lockstep o R (pure a) (pure b) :=
  fun t _ hts => ⟨.ok h, hts, .refl t⟩

theorem throw {e e' : CompileError} :
    Lockstep o R (MonadExcept.throw e : Lower α) (MonadExcept.throw e' : Lower β) :=
  fun t _ hts => ⟨.error e e', hts, .refl t⟩

theorem bind {x : Lower α} {y : Lower β} {f : α → Lower γ} {g : β → Lower δ}
    (hx : Lockstep o R x y) (hf : ∀ a b, R a b → Lockstep o S (f a) (g b)) :
    Lockstep o S (x >>= f) (y >>= g) := by
  intro t s hts
  obtain ⟨houtcome, hembeds, hgrows⟩ := hx t s hts
  obtain ⟨r, t', hxt⟩ : ∃ r t', x t = (r, t') := ⟨_, _, rfl⟩
  obtain ⟨r', s', hys⟩ : ∃ r' s', y s = (r', s') := ⟨_, _, rfl⟩
  rw [hxt, hys] at houtcome hembeds
  rw [hxt] at hgrows
  -- an error ends both sequences in the same place
  cases houtcome with
  | error e e' =>
    rw [ExceptT.bind_run_error hxt, ExceptT.bind_run_error hys]
    exact ⟨.error e e', hembeds, hgrows⟩
  | @ok a b hab =>
    rw [ExceptT.bind_run_ok hxt, ExceptT.bind_run_ok hys]
    obtain ⟨houtcome', hembeds', hgrows'⟩ := hf a b hab t' s' hembeds
    exact ⟨houtcome', hembeds', hgrows.trans hgrows'⟩

theorem mono {T : α → β → Prop} {x : Lower α} {y : Lower β} (h : Lockstep o R x y)
    (himp : ∀ a b, R a b → T a b) : Lockstep o T x y := by
  intro t s hts
  obtain ⟨houtcome, hembeds, hgrows⟩ := h t s hts
  exact ⟨houtcome.imp himp, hembeds, hgrows⟩

/-- A result that needs no circuit is the same in both states. -/
theorem ofExcept {x : Except CompileError α} {P : α → Prop} (h : x.Ensures P) :
    Lockstep o (fun a b => a = b ∧ P a) (ofExcept x) (Lower.ofExcept x) := by
  intro t s hts
  refine ⟨?_, hts, .refl t⟩
  show SameOutcome _ x x
  cases x with
  | error e => exact .error e e
  | ok a => exact .ok ⟨rfl, h a rfl⟩

theorem ofExcept_same (x : Except CompileError α) :
    Lockstep o (· = ·) (Lower.ofExcept x) (Lower.ofExcept x) :=
  (ofExcept (Except.ensures_true x)).mono fun _ _ h => h.1

theorem report (d : Diagnostic) : Lockstep o (fun _ _ => True) (report d) (Lower.report d) :=
  fun _ _ hts => ⟨.ok trivial, ⟨hts.circuit, ⟨hts.small.built, hts.small.functions⟩,
    ⟨hts.large.built, hts.large.functions⟩, hts.tables, hts.sources⟩, ⟨.refl _, rfl⟩⟩

end Lockstep

end Lower

/-! ### Appended operators -/

theorem Lower.append_of_ok {t : Lowering} {c : Circuit} {id : OperatorId}
    {build : Circuit → Except CircuitError (Circuit × OperatorId)}
    (h : build t.circuit = .ok (c, id)) : append build t = (.ok id, { t with circuit := c }) := by
  unfold append
  rw [h]

theorem Lower.append_of_error {t : Lowering} {e : CircuitError}
    {build : Circuit → Except CircuitError (Circuit × OperatorId)}
    (h : build t.circuit = .error e) : append build t = (.error (.circuit e), t) := by
  unfold append
  rw [h]

/-- A state with one more operator. -/
def Lowering.push (t : Lowering) (op : Operator) : Lowering :=
  { t with circuit := t.circuit.push op }

/-- What an operator of a kind becomes when its type is derived. -/
def Operator.ofKind (kind : OperatorKind) (inputs : List OperatorId) (function : Option Expr)
    (derived : Ty × Bool) : Operator :=
  ⟨kind, inputs, function, derived.1, derived.2⟩

section

variable {o : Nat → Nat} {t s : Lowering} {kind : OperatorKind} {inputs : List OperatorId}
  {function : Option Expr}

theorem Lowering.Sound.push (ht : t.Sound) {op : Operator}
    (hderive : t.circuit.derive op.kind op.inputs op.function = .ok (op.outputType, op.isMultiset))
    (hfunction : ∀ f ∈ op.function, f.Simplifiable) : (t.push op).Sound where
  built := ht.built.push hderive
  functions := ht.functions.push hfunction

/-- **Appending.** An operator is appended on both sides, as the last operators of states that
still correspond, or on neither. -/
theorem Lowering.Embeds.append (h : Embeds o t s) (function : Option Expr)
    (hfunction : ∀ f ∈ function, f.Simplifiable) (kind : OperatorKind)
    (inputs : List OperatorId) :
    (∃ derived : Ty × Bool,
      Lower.append (·.build kind inputs function) t =
        (.ok t.circuit.size, t.push (.ofKind kind inputs function derived)) ∧
      Lower.append (·.build kind (inputs.map o) function) s =
        (.ok s.circuit.size, s.push (.ofKind kind (inputs.map o) function derived)) ∧
      Embeds o (t.push (.ofKind kind inputs function derived))
        (s.push (.ofKind kind (inputs.map o) function derived))) ∨
    ∃ e e', Lower.append (·.build kind inputs function) t = (.error e, t) ∧
      Lower.append (·.build kind (inputs.map o) function) s = (.error e', s) := by
  have hiff (derived : Ty × Bool) : t.circuit.derive kind inputs function = .ok derived ↔
      s.circuit.derive kind (inputs.map o) function = .ok derived :=
    h.circuit.derive_eq_ok_iff h.small.built.ordered
  cases hderive : t.circuit.derive kind inputs function with
  | ok derived =>
    have hderive' := (hiff derived).mp hderive
    have hbuild : t.circuit.build kind inputs function =
        .ok (t.circuit.push (.ofKind kind inputs function derived), t.circuit.size) :=
      Circuit.build_eq_ok.mpr ⟨_, _, hderive, rfl⟩
    have hbuild' : s.circuit.build kind (inputs.map o) function =
        .ok (s.circuit.push (.ofKind kind (inputs.map o) function derived), s.circuit.size) :=
      Circuit.build_eq_ok.mpr ⟨_, _, hderive', rfl⟩
    -- both circuits get the operator, each with its own inputs, and stay embedded
    refine .inl ⟨derived, Lower.append_of_ok hbuild, Lower.append_of_ok hbuild',
      .both h.circuit (.refl _), h.small.push hderive hfunction, h.large.push hderive' hfunction,
      h.tables, fun entry hentry => ?_⟩
    exact Nat.lt_of_lt_of_le (h.sources entry hentry) (by simp [Lowering.push])
  | error e =>
    -- a type that one circuit does not derive, the other does not derive either
    have hnone : ∀ r, t.circuit.build kind inputs function ≠ .ok r := fun r hr => by
      obtain ⟨type, multiset, hok, -⟩ := Circuit.build_eq_ok.mp hr
      cases hderive.symm.trans hok
    have hnone' : ∀ r, s.circuit.build kind (inputs.map o) function ≠ .ok r := fun r hr => by
      obtain ⟨type, multiset, hok, -⟩ := Circuit.build_eq_ok.mp hr
      cases hderive.symm.trans ((hiff _).mpr hok)
    cases hbuild : t.circuit.build kind inputs function with
    | ok r => exact absurd hbuild (hnone r)
    | error e =>
      cases hbuild' : s.circuit.build kind (inputs.map o) function with
      | ok r => exact absurd hbuild' (hnone' r)
      | error e' =>
        exact .inr ⟨_, _, Lower.append_of_error hbuild, Lower.append_of_error hbuild'⟩

end

namespace Lower

variable {o : Nat → Nat} {input input' left left' right right' : OperatorId}
  {schema source target leftSchema rightSchema : Schema} {function : Expr}

/-- A place in the smaller state and its place in the larger one. -/
def Moved (o : Nat → Nat) (i i' : OperatorId) : Prop := i' = o i

/-- An operator that is neither a source nor a sink is appended in lockstep. -/
theorem lockstep_append {kind : OperatorKind} {inputs inputs' : List OperatorId}
    {function : Option Expr} (hkind : kind.IsInternal) (hinputs : inputs' = inputs.map o)
    (hfunction : ∀ f ∈ function, f.Simplifiable) :
    Lockstep o (Moved o) (append (·.build kind inputs function))
      (append (·.build kind inputs' function)) := by
  subst hinputs
  intro t s hts
  rcases hts.append function hfunction kind inputs with ⟨derived, ht, hs, hts'⟩ | ⟨e, e', ht, hs⟩
  · rw [ht, hs]
    exact ⟨.ok hts.circuit.place_size.symm, hts', .push (.refl _) hkind, rfl⟩
  · rw [ht, hs]
    exact ⟨.error e e', hts, .refl t⟩

/-- An operator with one input and a function. -/
theorem lockstep_appendFunction {kind : OperatorKind} (hkind : kind.IsInternal)
    (hinput : Moved o input input') (hfunction : function.Simplifiable) :
    Lockstep o (Moved o) (append (·.build kind [input] (some function)))
      (append (·.build kind [input'] (some function))) :=
  lockstep_append hkind (by rw [hinput]; rfl) (by simpa using hfunction)

/-- An operator with one input and no function. -/
theorem lockstep_appendUnary {kind : OperatorKind} (hkind : kind.IsInternal)
    (hinput : Moved o input input') :
    Lockstep o (Moved o) (append (·.addUnary kind input)) (append (·.addUnary kind input')) :=
  lockstep_append hkind (by rw [hinput]; rfl) nofun

theorem lockstep_appendConstant (value : ZSetLiteral) :
    Lockstep o (Moved o) (append (·.addConstant value)) (append (·.addConstant value)) :=
  lockstep_append ⟨rfl, rfl⟩ rfl nofun

theorem lockstep_appendSubtract (hleft : Moved o left left') (hright : Moved o right right') :
    Lockstep o (Moved o) (append (·.addSubtract left right))
      (append (·.addSubtract left' right')) :=
  lockstep_append ⟨rfl, rfl⟩ (by rw [hleft, hright]; rfl) nofun

theorem lockstep_appendJoin {keyType output : Ty} (hleft : Moved o left left')
    (hright : Moved o right right') (hfunction : function.Simplifiable) :
    Lockstep o (Moved o) (append (·.addJoin left right function keyType output))
      (append (·.addJoin left' right' function keyType output)) :=
  lockstep_append ⟨rfl, rfl⟩ (by rw [hleft, hright]; rfl) (by simpa using hfunction)

theorem lockstep_appendSum {inputs inputs' : List OperatorId} (hinputs : inputs' = inputs.map o) :
    Lockstep o (Moved o) (append (·.addSum inputs)) (append (·.addSum inputs')) :=
  lockstep_append (by exact ⟨rfl, rfl⟩) hinputs nofun

/-- A row function is compiled and an operator with it is appended. -/
theorem lockstep_withFunction {result : Except CompileError Expr} {kind : OperatorKind}
    (hresult : result.Ensures Expr.Simplifiable) (hkind : kind.IsInternal)
    (hinput : Moved o input input') :
    Lockstep o (Moved o)
      (do append (·.build kind [input] (some (← ofExcept result))))
      (do append (·.build kind [input'] (some (← ofExcept result)))) :=
  (Lockstep.ofExcept hresult).bind fun _ _ ⟨hsame, hfunction⟩ => by
    subst hsame
    exact lockstep_appendFunction hkind hinput hfunction

/-- More is lowered over an operator with a row function. -/
theorem lockstep_withFunction_bind {α β : Type} {R : α → β → Prop} {f : OperatorId → Lower α}
    {g : OperatorId → Lower β} {result : Except CompileError Expr} {kind : OperatorKind}
    (hresult : result.Ensures Expr.Simplifiable) (hkind : kind.IsInternal)
    (hinput : Moved o input input')
    (hrest : ∀ i i', Moved o i i' → Lockstep o R (f i) (g i')) :
    Lockstep o R
      (do f (← append (·.build kind [input] (some (← ofExcept result)))))
      (do g (← append (·.build kind [input'] (some (← ofExcept result))))) :=
  (Lockstep.ofExcept hresult).bind fun _ _ ⟨hsame, hfunction⟩ => by
    subst hsame
    exact (lockstep_appendFunction hkind hinput hfunction).bind hrest

/-! ### Nodes -/

/-- A scan looks at the tables only. -/
theorem scan_eq (table : String) (schema : Schema) (t : Lowering) : scan table schema t =
    (match Assoc.get? t.tables table with
      | none => (MonadExcept.throw (CompileError.unknownTable table) : Lower OperatorId)
      | some found =>
        if found.schema.rowType = schema.rowType then Pure.pure found.source
        else MonadExcept.throw (CompileError.malformed (.scanSchema table))) t := rfl

theorem lockstep_scan (table : String) (schema : Schema) :
    Lockstep o (Moved o) (scan table schema) (scan table schema) := by
  intro t s hts
  have hfound : Assoc.get? s.tables table = (Assoc.get? t.tables table).map (Table.rename o) := by
    rw [hts.tables, Assoc.get?_map]
  rw [scan_eq, scan_eq, hfound]
  cases Assoc.get? t.tables table with
  | none => exact Lockstep.throw t s hts
  | some found =>
    simp only [Option.map_some, Table.rename]
    split
    · exact Lockstep.pure (R := Moved o) rfl t s hts
    · exact Lockstep.throw t s hts

theorem lockstep_filter (hinput : Moved o input input') (condition : ScalarExpr) :
    Lockstep o (Moved o) (filter input schema condition) (filter input' schema condition) :=
  lockstep_withFunction (ensures_filterFunction condition) (by exact ⟨rfl, rfl⟩) hinput

theorem lockstep_project (hinput : Moved o input input') (exprs : List ScalarExpr) :
    Lockstep o (Moved o) (project input source exprs target)
      (project input' source exprs target) :=
  lockstep_withFunction (ensures_projectFunction exprs) (by exact ⟨rfl, rfl⟩) hinput

theorem lockstep_conform (hinput : Moved o input input') :
    Lockstep o (Moved o) (conform input source target) (conform input' source target) := by
  unfold conform
  split
  · exact .pure hinput
  · exact lockstep_withFunction ensures_conformFunction (by exact ⟨rfl, rfl⟩) hinput

/-! ### Joins -/

theorem lockstep_joinCondition (type : JoinType) (condition : Option ScalarExpr)
    (left right : Schema) :
    Lockstep o (· = ·) (joinCondition type condition left right)
      (joinCondition type condition left right) := by
  have hreport : ∀ split split' : JoinCondition, split = split' → Lockstep o (· = ·)
      (do
        if split.keys.isEmpty then Lower.report crossJoin
        return split)
      (do
        if split'.keys.isEmpty then Lower.report crossJoin
        return split') := by
    rintro split _ rfl
    dsimp only
    split
    · exact (Lockstep.report crossJoin).bind fun _ _ _ => .pure rfl
    · exact .pure rfl
  unfold joinCondition
  dsimp only
  -- other joins are refused in both
  by_cases htype : type ≠ .inner ∧ type ≠ .cross
  · rw [if_pos htype]
    exact (Lockstep.throw (R := fun _ _ => False)).bind fun _ _ h => h.elim
  · rw [if_neg htype]
    cases condition with
    | none => exact (Lockstep.pure rfl).bind hreport
    | some e => exact (Lockstep.ofExcept_same _).bind hreport

theorem lockstep_indexByKey (hinput : Moved o input input') (columns : List Nat)
    (types : List Ty) :
    Lockstep o (Moved o) (indexByKey input schema columns types)
      (indexByKey input' schema columns types) := by
  have hindex : ∀ i i', Moved o i i' → Lockstep o (Moved o)
      (do append (·.addIndex i (← ofExcept (keyFunction schema columns types)) (.tuple types)
        schema.rowType))
      (do append (·.addIndex i' (← ofExcept (keyFunction schema columns types)) (.tuple types)
        schema.rowType)) := fun i i' hi =>
    lockstep_withFunction (ensures_keyFunction columns types) (by exact ⟨rfl, rfl⟩) hi
  unfold indexByKey
  dsimp only
  split
  · exact hindex _ _ hinput
  · exact lockstep_withFunction_bind (ensures_presenceFunction _) (by exact ⟨rfl, rfl⟩) hinput
      hindex

theorem lockstep_join (hleft : Moved o left left') (hright : Moved o right right')
    (condition : JoinCondition) :
    Lockstep o (Moved o) (join left right leftSchema rightSchema condition schema)
      (join left' right' leftSchema rightSchema condition schema) := by
  unfold join
  refine (lockstep_indexByKey hleft _ _).bind fun leftIndex _ hleftIndex => ?_
  refine (lockstep_indexByKey hright _ _).bind fun rightIndex _ hrightIndex => ?_
  refine (Lockstep.ofExcept ensures_joinFunction).bind fun function _ ⟨hsame, hfunction⟩ => ?_
  subst hsame
  refine (lockstep_appendJoin hleftIndex hrightIndex hfunction).bind fun joined _ hjoined => ?_
  cases condition.residual with
  | none => exact lockstep_conform hjoined
  | some residual =>
    exact (lockstep_filter hjoined residual).bind fun kept _ hkept => lockstep_conform hkept

/-! ### Aggregates -/

theorem lockstep_orDefaultRow (hinput : Moved o input input') (calls : List AggregateCall) :
    Lockstep o (Moved o) (orDefaultRow input calls schema) (orDefaultRow input' calls schema) := by
  unfold orDefaultRow
  refine (Lockstep.ofExcept (ensures_emptyGroupRow calls)).bind fun row _ ⟨hsame, hrow⟩ => ?_
  subst hsame
  refine (Lockstep.ofExcept_same _).bind fun literal _ hsame => ?_
  subst hsame
  refine (lockstep_appendConstant literal).bind fun constant _ hconstant => ?_
  refine lockstep_withFunction_bind (ensures_constantFunction hrow) (by exact ⟨rfl, rfl⟩) hinput
    fun present _ hpresent => ?_
  refine (lockstep_appendSubtract hconstant hpresent).bind fun missing _ hmissing => ?_
  exact lockstep_appendSum (by rw [hinput, hmissing]; rfl)

theorem lockstep_aggregate (hinput : Moved o input input') (groupKeys : List Nat)
    (calls : List AggregateCall) :
    Lockstep o (Moved o) (aggregate input source groupKeys calls target)
      (aggregate input' source groupKeys calls target) := by
  unfold aggregate
  refine (Lockstep.ofExcept_same _).bind fun types _ hsame => ?_
  subst hsame
  refine lockstep_withFunction_bind (ensures_groupFunction groupKeys) (by exact ⟨rfl, rfl⟩) hinput
    fun indexed _ hindexed => ?_
  refine (Lockstep.ofExcept (ensures_foldFunction _ _ calls)).bind fun folding _ h => ?_
  obtain ⟨fold, resultType⟩ := folding
  obtain ⟨rfl, hfold⟩ := h
  refine (lockstep_appendFunction (by exact ⟨rfl, rfl⟩) hindexed hfold).bind
    fun folded _ hfolded => ?_
  refine lockstep_withFunction_bind (ensures_flattenFunction _ _ _) (by exact ⟨rfl, rfl⟩) hfolded
    fun aggregated _ haggregated => ?_
  split
  · exact lockstep_orDefaultRow haggregated calls
  · exact .pure haggregated

/-! ### Set operations -/

theorem lockstep_indexByRow (hinput : Moved o input input') :
    Lockstep o (Moved o) (indexByRow input schema) (indexByRow input' schema) :=
  lockstep_withFunction ensures_wholeRowFunction (by exact ⟨rfl, rfl⟩) hinput

theorem lockstep_exceptOne (hleft : Moved o left left') (hright : Moved o right right') :
    Lockstep o (Moved o) (exceptOne left right) (exceptOne left' right') :=
  (lockstep_appendUnary (by exact ⟨rfl, rfl⟩) hright).bind fun _ _ hremoved =>
    lockstep_appendSubtract hleft hremoved

theorem lockstep_intersectOne (hleft : Moved o left left') (hright : Moved o right right') :
    Lockstep o (Moved o) (intersectOne schema left right) (intersectOne schema left' right') := by
  refine (lockstep_appendUnary (by exact ⟨rfl, rfl⟩) hright).bind fun other _ hother => ?_
  refine (lockstep_indexByRow hleft).bind fun leftIndex _ hleftIndex => ?_
  refine (lockstep_indexByRow hother).bind fun rightIndex _ hrightIndex => ?_
  refine (Lockstep.ofExcept ensures_keyOnlyFunction).bind fun function _ ⟨hsame, hfunction⟩ => ?_
  subst hsame
  exact lockstep_appendJoin hleftIndex hrightIndex hfunction

/-- A fold over inputs is in lockstep if its step is. -/
theorem lockstep_foldlM {f : OperatorId → OperatorId → Lower OperatorId}
    (hf : ∀ result result' input input', Moved o result result' → Moved o input input' →
      Lockstep o (Moved o) (f result input) (f result' input')) :
    ∀ (inputs : List OperatorId) {result result' : OperatorId}, Moved o result result' →
      Lockstep o (Moved o) (inputs.foldlM f result) ((inputs.map o).foldlM f result')
  | [], _, _, hresult => .pure hresult
  | input :: inputs, _, _, hresult => by
    rw [List.map_cons, List.foldlM_cons, List.foldlM_cons]
    exact (hf _ _ _ _ hresult rfl).bind fun _ _ hnext => lockstep_foldlM hf inputs hnext

theorem lockstep_setOp (operation : SetOperation) {inputs inputs' : List OperatorId}
    (hinputs : inputs' = inputs.map o) :
    Lockstep o (Moved o) (setOp operation inputs schema) (setOp operation inputs' schema) := by
  subst hinputs
  have hdistinct {i i' : OperatorId} (hi : Moved o i i') :
      Lockstep o (Moved o) (append (·.addUnary .distinct i)) (append (·.addUnary .distinct i')) :=
    lockstep_appendUnary ⟨rfl, rfl⟩ hi
  cases inputs with
  -- a set operation without operands is refused
  | nil => cases operation <;> exact .throw
  | cons first rest =>
    cases operation with
    | unionAll => exact lockstep_appendSum rfl
    | union => exact (lockstep_appendSum rfl).bind fun _ _ hsum => hdistinct hsum
    | except =>
      refine (hdistinct rfl).bind fun start _ hstart => ?_
      exact (lockstep_foldlM (fun _ _ _ _ => lockstep_exceptOne) rest hstart).bind
        fun _ _ hresult => hdistinct hresult
    | intersect =>
      refine (hdistinct rfl).bind fun start _ hstart => ?_
      exact (lockstep_foldlM (fun _ _ _ _ => lockstep_intersectOne) rest hstart).bind
        fun _ _ hresult => hdistinct hresult

end Lower

/-! ### Plans -/

namespace Plan

open Lower (Lockstep Moved)

variable {o : Nat → Nat}

mutual

/-- **Plans.** A plan is lowered in lockstep with itself. -/
theorem lockstep_lower : ∀ plan : Plan, Lockstep o (Moved o) plan.lower plan.lower
  | .scan table schema => Lower.lockstep_scan table schema
  | .filter input condition _ =>
    (lockstep_lower input).bind fun _ _ hsource => Lower.lockstep_filter hsource condition
  | .project input exprs _ =>
    (lockstep_lower input).bind fun _ _ hsource => Lower.lockstep_project hsource exprs
  | .join left right type condition _ =>
    (Lower.lockstep_joinCondition type condition left.schema right.schema).bind
      fun split _ hsame => (lockstep_lower left).bind fun _ _ hleft =>
        (lockstep_lower right).bind fun _ _ hright => by
          subst hsame
          exact Lower.lockstep_join hleft hright split
  | .aggregate input groupKeys calls _ =>
    (lockstep_lower input).bind fun _ _ hsource =>
      Lower.lockstep_aggregate hsource groupKeys calls
  | .sort input _ _ =>
    (lockstep_lower input).bind fun _ _ hsource =>
      (Lockstep.report orderIgnored).bind fun _ _ _ =>
        Lower.lockstep_appendUnary ⟨rfl, rfl⟩ hsource
  | .limit _ _ _ => .throw
  | .setOp operation inputs schema =>
    (lockstep_lowerAll schema inputs).bind fun _ _ hsources =>
      Lower.lockstep_setOp operation hsources

theorem lockstep_lowerAll (schema : Schema) :
    ∀ plans : List Plan,
      Lockstep o (fun ids ids' => ids' = ids.map o) (lowerAll schema plans) (lowerAll schema plans)
  | [] => .pure rfl
  | input :: inputs =>
    (lockstep_lower input).bind fun _ _ hsource =>
      (Lower.lockstep_conform hsource).bind fun _ _ hconformed =>
        (lockstep_lowerAll schema inputs).bind fun _ _ hrest =>
          .pure (by rw [hconformed, hrest, List.map_cons])

end

end Plan
end DeltaCircuit
