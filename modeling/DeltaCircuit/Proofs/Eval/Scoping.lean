import DeltaCircuit.Proofs.Assoc
import DeltaCircuit.Proofs.Circuit.Construction
import DeltaCircuit.Proofs.Eval.Law
import DeltaCircuit.Proofs.Eval.Steps
import DeltaCircuit.Proofs.Expr.FreeUses

/-!
# Static and dynamic scopes

The free variables of an expression come from a pass over it that knows no values: which branch is
taken, how often a loop runs and where a pattern stops to match are open to it. An evaluation has
scopes instead, which it opens and closes as it goes. This file shows that the pass is on the safe
side: the evaluation finds every name that it looks up.

Both sides bind and forget the same names at the same places. An evaluation leaves every scope with
the names that it had before, and a step inside a scope adds names to that scope only, among them
those that the pass counts as bound after it.

* `Scopes.names`, `Scopes.BindsAll` — the names of the scopes, and the names that have a value.
* `Eval.Finds` — an evaluation that finds its names, and how it leaves the variables.
* `Eval.scoping` — that evaluations do so where the names used are bound, as a law of evaluation.
* `Expr.finds_eval` — an expression whose free variables are bound.
* `Expr.never_unbound` — neither such an expression nor a function of a circuit ends in an unbound
  name.
-/

namespace DeltaCircuit

/-! ### The names of scopes -/

namespace Scopes

variable {s s' : Scopes} {name : String} {value : Value} {wanted wanted' : List String}

/-- The names in each of the scopes. -/
def names (s : Scopes) : List (List String) := s.map fun scope => scope.map Prod.fst

/-- The names all have a value. -/
def BindsAll (s : Scopes) (wanted : List String) : Prop :=
  ∀ name ∈ wanted, (s.find? name).isSome

theorem isSome_find?_iff : (s.find? name).isSome ↔ ∃ scope ∈ s.names, name ∈ scope := by
  induction s with
  | nil => simp [find?, names]
  | cons scope outer ih =>
    rw [find?, Option.isSome_or, Bool.or_eq_true, ih, Assoc.isSome_get?_iff]
    simp [names]

theorem BindsAll.congr (h : s.names = s'.names) (hs : s.BindsAll wanted) : s'.BindsAll wanted := by
  intro name hname
  rw [isSome_find?_iff, ← h, ← isSome_find?_iff]
  exact hs name hname

theorem BindsAll.mono (hs : s.BindsAll wanted) (h : wanted' ⊆ wanted) : s.BindsAll wanted' :=
  fun name hname => hs name (h hname)

theorem bindsAll_cons_nil (hs : s.BindsAll wanted) : BindsAll ([] :: s) wanted := by
  intro name hname
  have hfind : find? ([] :: s) name = s.find? name := rfl
  rw [hfind]
  exact hs name hname

/-- In a scope, a name is bound for itself and takes no other name its value. -/
theorem isSome_find?_bind (hs : s ≠ []) {other : String} :
    ((s.bind name value).find? other).isSome ↔ other = name ∨ (s.find? other).isSome := by
  cases s with
  | nil => exact absurd rfl hs
  | cons scope outer =>
    rw [bind, find?, find?, Assoc.get?_set]
    by_cases hname : name = other
    · simp [hname]
    · simp [hname, Ne.symm hname]

/-- A change of a variable binds nothing. -/
theorem names_update : (s.update name value).names = s.names := by
  induction s with
  | nil => rfl
  | cons scope outer ih =>
    rw [update]
    split
    · next hscope =>
      have hkeys := Assoc.keys_set scope name value
      -- a scope that has the name already keeps its names
      rw [if_pos (Assoc.isSome_get?_iff.mp hscope)] at hkeys
      rw [names, names, List.map_cons, List.map_cons, hkeys]
    · exact congrArg (List.cons _) ih

/-- An assignment updates the variable that its target denotes. -/
theorem exists_update_of_assign {target : Expr} (h : s.assign target value = .ok s') :
    ∃ name path new, target.place? = .ok (name, path) ∧ s' = s.update name new := by
  unfold Scopes.assign at h
  obtain ⟨⟨name, path⟩, hplace, h⟩ := Except.bind_eq_ok.mp h
  dsimp only at h
  split at h
  · cases h
  · obtain ⟨new, -, h⟩ := Except.bind_eq_ok.mp h
    exact ⟨name, path, new, hplace, (Except.pure_eq_ok.mp h).symm⟩

theorem names_assign {target : Expr} (h : s.assign target value = .ok s') :
    s'.names = s.names := by
  obtain ⟨name, path, new, -, rfl⟩ := exists_update_of_assign h
  exact names_update

end Scopes

/-- The variable that an assignment goes to counts as used. -/
theorem Expr.mem_freeUses_of_place? {bound : List String} :
    ∀ {target : Expr} {name : String} {path : List Nat}, target.place? = .ok (name, path) →
      name ∈ bound ∨ name ∈ target.freeUses bound
  | ⟨_, _, form⟩, name, path, h => by
    rw [Expr.freeUses]
    cases form with
    | var other =>
      obtain ⟨rfl, -⟩ := Prod.mk.inj (Except.ok.inj h)
      by_cases hbound : other ∈ bound
      · exact .inl hbound
      · -- a variable that is not bound counts as used
        refine .inr ?_
        rw [Form.freeUses, freeUse, if_neg (by simpa using hbound)]
        exact List.mem_singleton.mpr rfl
    | field base index =>
      rw [Expr.place?] at h
      obtain ⟨⟨name', path'⟩, hbase, h⟩ := Except.bind_eq_ok.mp h
      obtain ⟨rfl, -⟩ := Prod.mk.inj (Except.pure_eq_ok.mp h)
      exact mem_freeUses_of_place? hbase
    | deref operand =>
      have hoperand : operand.place? = .ok (name, path) := h
      exact mem_freeUses_of_place? hoperand
    | _ => cases h

/-! ### Evaluations that find their names -/

namespace Eval

variable {α β : Type} {x : Eval α} {f : α → Eval β} {s : Scopes}

/-- From these variables, the evaluation finds every name that it looks up. If it succeeds, its
value and the variables that it leaves behind are as `post` says. -/
structure Finds (x : Eval α) (s : Scopes) (post : α → Scopes → Prop) : Prop where
  names : (x s).1.RaisesOnly fun e => e.isUnbound = false
  post : ∀ a s', x.Gives s a s' → post a s'

section Rules

variable {post post' : α → Scopes → Prop} {last : β → Scopes → Prop}

theorem Finds.imp (hx : x.Finds s post) (h : ∀ a s', post a s' → post' a s') :
    x.Finds s post' :=
  ⟨hx.names, fun a s' hgives => h a s' (hx.post a s' hgives)⟩

theorem finds_pure {a : α} (h : post a s) : (pure a : Eval α).Finds s post := by
  refine ⟨Except.raisesOnly_ok, fun a' s' hgives => ?_⟩
  obtain ⟨rfl, rfl⟩ := ExceptT.gives_pure.mp hgives
  exact h

theorem finds_throw {e : EvalError} (h : e.isPlain = true) :
    (throw e : Eval α).Finds s post := by
  refine ⟨Except.raisesOnly_error ?_, fun a s' hgives => (ExceptT.gives_throw.mp hgives).elim⟩
  unfold EvalError.isPlain at h
  simp_all

theorem Finds.bind (hx : x.Finds s post) (hf : ∀ a t, post a t → (f a).Finds t last) :
    (x >>= f).Finds s last := by
  obtain ⟨result, t, hrun⟩ : ∃ result t, x s = (result, t) := ⟨_, _, rfl⟩
  cases result with
  | error e =>
    have he := hx.names e (by rw [hrun])
    -- a failing first step ends the whole, so there is nothing to say about what it leaves
    refine ⟨?_, fun b s' hgives => ?_⟩
    · rw [ExceptT.bind_run_error hrun]
      exact Except.raisesOnly_error he
    · cases (ExceptT.bind_run_error hrun).symm.trans hgives
  | ok a =>
    have hstep := hf a t (hx.post a t hrun)
    refine ⟨?_, fun b s' hgives => ?_⟩
    · rw [ExceptT.bind_run_ok hrun]
      exact hstep.names
    · exact hstep.post b s' ((ExceptT.bind_run_ok hrun).symm.trans hgives)

end Rules

/-- A name that is bound is found. -/
theorem finds_lookup {name : String} (h : (s.find? name).isSome) :
    (lookup name).Finds s fun _ s' => Scopes.names s' = Scopes.names s := by
  obtain ⟨value, hvalue⟩ := Option.isSome_iff_exists.mp h
  have hrun : lookup name s = (.ok value, s) := by
    unfold lookup
    rw [hvalue]
  refine ⟨?_, fun a s' hgives => ?_⟩
  · rw [hrun]
    exact Except.raisesOnly_ok
  · cases hrun.symm.trans hgives
    rfl

/-- So is the variable of an assignment. -/
theorem finds_assign {target : Expr} {value : Value}
    (h : ∀ name path, target.place? = .ok (name, path) → (s.find? name).isSome) :
    (assign target value).Finds s fun _ s' => Scopes.names s' = Scopes.names s := by
  cases hassign : s.assign target value with
  | error e =>
    have hrun : assign target value s = (.error e, s) := by
      unfold assign
      rw [hassign]
    -- an error that is not plain would say that the variable has no value
    have he : e.isUnbound = false := by
      rcases Scopes.error_of_assign hassign with hplain | ⟨name, path, rfl, hplace, hfind⟩
      · unfold EvalError.isPlain at hplain
        simp_all
      · have hsome := h name path hplace
        rw [hfind] at hsome
        cases hsome
    refine ⟨?_, fun a s' hgives => ?_⟩
    · rw [hrun]
      exact Except.raisesOnly_error he
    · cases hrun.symm.trans hgives
  | ok after =>
    have hrun : assign target value s = (.ok (), after) := by
      unfold assign
      rw [hassign]
    refine ⟨?_, fun a s' hgives => ?_⟩
    · rw [hrun]
      exact Except.raisesOnly_ok
    · cases hrun.symm.trans hgives
      exact Scopes.names_assign hassign

/-! ### The law -/

/-- What a step leaves behind: the names of the scopes around the innermost one are as before, and
the names that were to be bound are. -/
structure StepsTo (s s' : Scopes) (wanted : List String) : Prop where
  inside : s' ≠ []
  outside : Scopes.names s'.tail = Scopes.names s.tail
  binds : s'.BindsAll wanted

theorem Finds.inScope {post : α → Scopes → Prop}
    (hx : x.Finds ([] :: s) fun a s' => post a s'.tail) : (inScope x).Finds s post := by
  obtain ⟨result, t, hrun⟩ : ∃ result t, x ([] :: s) = (result, t) := ⟨_, _, rfl⟩
  refine ⟨?_, fun a s' hgives => ?_⟩
  · rw [inScope_run hrun]
    have hnames := hx.names
    rw [hrun] at hnames
    exact hnames
  · obtain ⟨t', ht', rfl⟩ := gives_inScope.mp hgives
    exact hx.post a t' ht'

/-- **Scoping.** Where the names that are used are bound, they are found. Afterwards the scopes have
the names that they had; a step inside a scope adds to the names of this scope those that it is
said to bind. -/
def scoping (known : List String) : Law where
  Known name := name ∈ known
  Whole bound x := ∀ s : Scopes, s.BindsAll (known ++ bound) →
    x.Finds s fun _ s' => Scopes.names s' = Scopes.names s
  Step bound x after := ∀ s : Scopes, s ≠ [] → s.BindsAll (known ++ bound) →
    x.Finds s fun a s' => StepsTo s s' (known ++ after a)
  whole_pure _ _ _ _ := finds_pure rfl
  whole_throw _ h _ _ := finds_throw h
  whole_bind hx hf s hs := by
    refine (hx s hs).bind fun a t ht => ?_
    refine (hf a t (hs.congr ht.symm)).imp fun b s' hs' => ?_
    exact hs'.trans ht
  whole_lookup hname s hs := by
    refine finds_lookup (hs _ (List.mem_append.mpr ?_))
    exact hname.symm
  whole_inScope hx s hs := by
    -- what the steps have bound is in the innermost scope, which is closed
    have hscope := hx ([] :: s) (List.cons_ne_nil _ _) (Scopes.bindsAll_cons_nil hs)
    exact Finds.inScope (hscope.imp fun a s' hs' => hs'.outside)
  step_of_whole hx s hne hs := by
    -- what changes no names keeps the scopes as many as they are
    refine (hx s hs).imp fun a s' hs' => ⟨?_, ?_, hs.congr hs'.symm⟩
    · rintro rfl
      exact hne (List.map_eq_nil_iff.mp hs'.symm)
    · have htail := congrArg List.tail hs'
      rwa [Scopes.names, Scopes.names, ← List.map_tail, ← List.map_tail] at htail
  step_pure h s hne hs := by
    refine finds_pure ⟨hne, rfl, hs.mono ?_⟩
    exact List.append_subset_append (List.Subset.refl known) h
  step_throw _ _ h _ _ _ := finds_throw h
  step_bind hx hf s hne hs := by
    refine (hx s hne hs).bind fun a t ht => ?_
    refine (hf a t ht.inside ht.binds).imp fun b s' hs' => ?_
    exact ⟨hs'.inside, hs'.outside.trans ht.outside, hs'.binds⟩
  step_name bound name value s hne hs := by
    refine ⟨Except.raisesOnly_ok, fun a s' hgives => ?_⟩
    obtain rfl : s.bind name value = s' := (Prod.mk.inj hgives).2
    refine ⟨?_, ?_, fun other hother => ?_⟩
    · cases s with
      | nil => exact absurd rfl hne
      | cons scope outer => exact List.cons_ne_nil _ _
    · cases s <;> rfl
    · -- the new name is bound for itself, and the others are as before
      rw [Scopes.isSome_find?_bind hne]
      rcases List.mem_append.mp hother with hknown | hbound
      · exact .inr (hs other (List.mem_append_left _ hknown))
      · rcases List.mem_cons.mp hbound with rfl | hbound
        · exact .inl rfl
        · exact .inr (hs other (List.mem_append_right _ hbound))
  step_mono hx h s hne hs := by
    refine (hx s hne hs).imp fun a s' hs' => ⟨hs'.inside, hs'.outside, hs'.binds.mono ?_⟩
    exact List.append_subset_append (List.Subset.refl known) (h a)

/-- The target of an assignment is among the names used. -/
theorem scoping_assigns (known : List String) (e : Expr) : (scoping known).Assigns e := by
  intro target value _ bound v hcovers s hs
  refine finds_assign fun name path hplace => hs name (List.mem_append.mpr ?_)
  rcases Expr.mem_freeUses_of_place? hplace with hbound | huse
  · exact .inr hbound
  · exact .inl (hcovers name huse)

end Eval

/-! ### Expressions and functions -/

namespace Expr

theorem mem_freeVariables {e : Expr} {name : String} :
    name ∈ e.freeVariables ↔ name ∈ e.freeUses [] := List.mem_eraseDups

/-- **Expressions.** An expression whose free variables are bound finds every name that it looks
up, and leaves the scopes with their names. -/
theorem finds_eval {e : Expr} {s : Scopes} (h : s.BindsAll e.freeVariables) :
    e.eval.Finds s fun _ s' => Scopes.names s' = Scopes.names s := by
  have hholds : (Eval.scoping e.freeVariables).Holds e :=
    Eval.Law.holds (.of_all (Eval.scoping_assigns _) e)
  refine hholds [] (fun name hname => mem_freeVariables.mpr hname) s ?_
  rwa [List.append_nil]

/-- **Functions.** A call of a closed function finds every name, whatever the arguments. -/
theorem finds_call {function : Expr} (h : function.freeVariables = []) (args : List Value)
    (s : Scopes) : (function.call args).Finds s fun _ s' => Scopes.names s' = Scopes.names s := by
  have hclosed : function.freeUses [] = [] := List.isEmpty_iff.mp (isClosed_iff.mpr h)
  have hcall : (Eval.scoping []).Whole [] (function.call args) := by
    -- without free variables, the names used are among those of any scopes
    refine Eval.Law.whole_call (Eval.scoping_assigns []) (fun name hname => ?_) args
    rw [hclosed] at hname
    cases hname
  exact hcall s fun _ => nofun

end Expr

/-- The function of an operator of a built circuit has no free variables. -/
theorem Circuit.Built.freeVariables_eq_nil {c : Circuit} (hc : c.Built) {op : Operator}
    (hop : op ∈ c.operators) {function : Expr} (hfunction : op.function = some function) :
    function.freeVariables = [] := by
  obtain ⟨id, hget⟩ := List.mem_iff_getElem?.mp hop
  have hderive := hc.derive_take hget
  rw [hfunction] at hderive
  obtain ⟨_, _, _, _, _, hsignature⟩ := hasSignature_of_derive hderive
  exact hsignature.closed

/-- **The free variables suffice.** An expression whose free variables have values never ends in an
unbound name, whatever it assigns to and whichever way it takes. So it is with the functions of a
circuit, whatever they are applied to. -/
theorem Expr.never_unbound :
    (∀ (e : Expr) (s : Scopes), (∀ name ∈ e.freeVariables, (s.find? name).isSome) →
      ∀ name, (e.eval s).1 ≠ .error (.unbound name)) ∧
    ∀ c : Circuit, c.Built → ∀ op ∈ c.operators, ∀ function, op.function = some function →
      ∀ args name, function.applyTo args ≠ .error (.unbound name) := by
  constructor
  · intro e s hbinds name herror
    cases (finds_eval hbinds).names _ herror
  · intro c hc op hop function hfunction args name herror
    have hclosed := hc.freeVariables_eq_nil hop hfunction
    cases (finds_call hclosed args []).names _ herror

/-! ### A pattern that uses what it binds -/

/-- The match `match (row, row) { (x, x) => { let mut kept = x; kept = row; kept }, _ => row }`,
where the second component of the pattern is a constant. -/
def Expr.compareTwice : Expr :=
  ofForm (some .bool) (.matchOn (ofForm none (.tuple [var "row" .bool, var "row" .bool]))
    [⟨.tuple [.identifier "x" false, .literal (var "x" .bool)],
      block [.binding "kept" (var "x" .bool) true,
        .eval (ofForm (some .unit) (.assign (var "kept" .bool) (var "row" .bool)))]
        (some (var "kept" .bool))⟩,
    ⟨.wildcard, var "row" .bool⟩])

/-- The rows of a table that the match lets through. -/
def Circuit.comparing : Circuit :=
  ((empty "comparing").push ⟨.source "t" .bool, [], none, .zset .bool, true⟩).push
    ⟨.filter, [0], some (Expr.ofForm (some (.function (some .bool) [.byRef .bool]))
      (.closure [.named "row" (.byRef .bool)] Expr.compareTwice)), .zset .bool, true⟩

theorem Expr.compareTwice_never_unbound :
    Expr.compareTwice.freeVariables = ["row"] ∧
      (∀ name, (Expr.compareTwice.eval [[("row", .bool true)]]).1 ≠ .error (.unbound name)) ∧
      Circuit.comparing.Built ∧
      ∀ op ∈ Circuit.comparing.operators, ∀ function, op.function = some function →
        ∀ args name, function.applyTo args ≠ .error (.unbound name) := by
  have hfree : Expr.compareTwice.freeVariables = ["row"] := by decide
  have hbuilt : Circuit.comparing.Built := .push (.push (.empty _) rfl) rfl
  refine ⟨hfree, never_unbound.1 _ _ ?_, hbuilt, never_unbound.2 _ hbuilt⟩
  rw [hfree]
  decide

end DeltaCircuit
