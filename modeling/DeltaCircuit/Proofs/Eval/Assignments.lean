import DeltaCircuit.Proofs.Eval.Frame
import DeltaCircuit.Proofs.Eval.Scoping

/-!
# What an evaluation assigns to

Evaluations open scopes and close them again, and in between they may end in an error at any point.
What is left of them are the assignments to variables that were there before. An assignment goes to
the innermost variable of its name, so one whose name is bound in the expression at its place stays
inside of the expression, and any other one is in plain sight: its name is a free one.

To tell the two apart the scopes are split. Behind the scopes that an evaluation finds stand those
that were there before the expression; the names that are bound at a place have a value in the
former, and of the latter only variables that are assigned to freely can change.

* `Scopes.Touches` — variables before and after, of which only some have changed.
* `Eval.touching` — that evaluations change only variables of some names, as a law of evaluation.
* `Expr.AssignsTo` — the names that an expression assigns to and does not bind.
* `Expr.touches_eval` — an evaluation changes variables of these names only.
* `Expr.eval_assigns` — that no other variable changes, and no call of a function the next one.
-/

namespace DeltaCircuit

namespace Scopes

variable {s s' s'' inner outer : Scopes} {name : String} {value : Value} {P : String → Prop}

/-- The value of the variable of a name in the scope at a depth, the innermost scope at zero. -/
def value? (s : Scopes) (depth : Nat) (name : String) : Option Value :=
  s[depth]?.bind fun scope => Assoc.get? scope name

/-- The scopes have the names that they had, and only variables of names with a property have other
values. -/
structure Touches (P : String → Prop) (s s' : Scopes) : Prop where
  names : s'.names = s.names
  values : ∀ depth name, s'.value? depth name ≠ s.value? depth name → P name

theorem Touches.refl (P : String → Prop) (s : Scopes) : s.Touches P s :=
  ⟨rfl, fun _ _ h => absurd rfl h⟩

theorem Touches.trans (h : s.Touches P s') (h' : s'.Touches P s'') : s.Touches P s'' := by
  refine ⟨h'.names.trans h.names, fun depth name hne => ?_⟩
  -- if the last stretch has not changed the variable, the first one has
  by_cases hlast : s''.value? depth name = s'.value? depth name
  · exact h.values depth name (hlast ▸ hne)
  · exact h'.values depth name hlast

/-! ### Updates -/

theorem value?_update_of_ne {other : String} (hne : name ≠ other) (depth : Nat) :
    (s.update name value).value? depth other = s.value? depth other := by
  induction s generalizing depth with
  | nil => rfl
  | cons scope outer ih =>
    rw [update]
    split
    · cases depth with
      | zero => exact Assoc.get?_set_of_ne scope value hne
      | succ depth => rfl
    · cases depth with
      | zero => rfl
      | succ depth => exact ih depth

theorem touches_update (h : P name) : s.Touches P (s.update name value) := by
  refine ⟨names_update, fun depth other hne => ?_⟩
  by_cases hname : name = other
  · exact hname ▸ h
  · exact absurd (value?_update_of_ne hname depth) hne

/-- An update goes to the scopes in front if one of them has the name. -/
theorem update_append : (inner ++ outer).update name value =
    if (inner.find? name).isSome then inner.update name value ++ outer
    else inner ++ outer.update name value := by
  induction inner with
  | nil => rfl
  | cons scope inner ih =>
    rw [List.cons_append, update, ih, find?, Option.isSome_or, update]
    by_cases hscope : (Assoc.get? scope name).isSome
    · simp [hscope]
    · by_cases hinner : (find? inner name).isSome <;> simp [hscope, hinner]

theorem eq_nil_of_names (h : s.names = []) : s = [] := List.map_eq_nil_iff.mp h

end Scopes

/-! ### The law -/

namespace Eval

variable {α β : Type} {x : Eval α} {f : α → Eval β} {bound : List String} {P : String → Prop}

/-- **Touching.** An evaluation that finds the names in `bound` in the scopes in front gives these
scopes back with their names, and touches only some variables of those behind. A step inside a scope
may bind names there, among them those that it is said to bind. -/
def touching (P : String → Prop) : Law where
  Known _ := True
  Whole bound x := ∀ inner outer : Scopes, inner.BindsAll bound → ∃ inner' outer',
    (x (inner ++ outer)).2 = inner' ++ outer' ∧ Scopes.names inner' = inner.names ∧
      outer.Touches P outer'
  Step bound x after := ∀ (scope : List (String × Value)) (inner outer : Scopes),
    Scopes.BindsAll (scope :: inner) bound → ∃ scope' inner' outer',
      (x (scope :: inner ++ outer)).2 = scope' :: inner' ++ outer' ∧
        Scopes.names inner' = inner.names ∧ outer.Touches P outer' ∧
        ∀ a, (x (scope :: inner ++ outer)).1 = .ok a →
          Scopes.BindsAll (scope' :: inner') (after a)
  whole_pure _ _ inner outer _ := ⟨inner, outer, rfl, rfl, .refl P outer⟩
  whole_throw _ _ inner outer _ := ⟨inner, outer, rfl, rfl, .refl P outer⟩
  whole_bind {_ _ _ x _} hx hf inner outer hbound := by
    obtain ⟨inner', outer', hstate, hnames, htouches⟩ := hx inner outer hbound
    obtain ⟨result, t, hrun⟩ : ∃ result t, x (inner ++ outer) = (result, t) := ⟨_, _, rfl⟩
    rw [hrun] at hstate
    obtain rfl : t = inner' ++ outer' := hstate
    cases result with
    -- the second evaluation does not take place, and the first one has done what it has done
    | error e => exact ⟨inner', outer', by rw [ExceptT.bind_run_error hrun], hnames, htouches⟩
    | ok a =>
      obtain ⟨inner'', outer'', hstate, hnames', htouches'⟩ :=
        hf a inner' outer' (hbound.congr hnames.symm)
      rw [ExceptT.bind_run_ok hrun]
      exact ⟨inner'', outer'', hstate, hnames'.trans hnames, htouches.trans htouches'⟩
  whole_lookup _ inner outer _ := ⟨inner, outer, keeps_lookup _, rfl, .refl P outer⟩
  whole_inScope {_ _ x _} hx inner outer hbound := by
    obtain ⟨scope', inner', outer', hstate, hnames, htouches, -⟩ :=
      hx [] inner outer (Scopes.bindsAll_cons_nil hbound)
    obtain ⟨result, t, hrun⟩ : ∃ result t, x ([] :: (inner ++ outer)) = (result, t) := ⟨_, _, rfl⟩
    rw [List.cons_append, hrun] at hstate
    obtain rfl : t = scope' :: inner' ++ outer' := hstate
    exact ⟨inner', outer', by rw [inScope_run hrun]; rfl, hnames, htouches⟩
  step_of_whole hx scope inner outer hbound := by
    obtain ⟨all, outer', hstate, hnames, htouches⟩ := hx (scope :: inner) outer hbound
    -- the names are as before, so there is a scope in front still
    cases all with
    | nil => cases hnames
    | cons scope' inner' =>
      exact ⟨scope', inner', outer', hstate, (List.cons.inj hnames).2, htouches,
        fun _ _ => hbound.congr hnames.symm⟩
  step_pure h scope inner outer hbound :=
    ⟨scope, inner, outer, rfl, rfl, .refl P outer,
      fun a ha => Except.ok.inj ha ▸ hbound.mono h⟩
  step_throw _ _ _ scope inner outer _ :=
    ⟨scope, inner, outer, rfl, rfl, .refl P outer, fun _ ha => nomatch ha⟩
  step_bind {_ _ _ x _ _ _} hx hf scope inner outer hbound := by
    obtain ⟨scope', inner', outer', hstate, hnames, htouches, hbinds⟩ := hx scope inner outer hbound
    obtain ⟨result, t, hrun⟩ : ∃ result t, x (scope :: inner ++ outer) = (result, t) := ⟨_, _, rfl⟩
    rw [hrun] at hstate hbinds
    obtain rfl : t = scope' :: inner' ++ outer' := hstate
    cases result with
    | error e =>
      rw [ExceptT.bind_run_error hrun]
      exact ⟨scope', inner', outer', rfl, hnames, htouches, fun _ ha => nomatch ha⟩
    | ok a =>
      obtain ⟨scope'', inner'', outer'', hstate, hnames', htouches', hbinds'⟩ :=
        hf a scope' inner' outer' (hbinds a rfl)
      rw [ExceptT.bind_run_ok hrun]
      exact ⟨scope'', inner'', outer'', hstate, hnames'.trans hnames, htouches.trans htouches',
        hbinds'⟩
  step_name bound name value scope inner outer hbound := by
    -- the innermost scope is in front, so a new name never gets behind it
    refine ⟨Assoc.set scope name value, inner, outer, rfl, rfl, .refl P outer, fun _ _ => ?_⟩
    intro other hother
    refine (Scopes.isSome_find?_bind (List.cons_ne_nil scope inner)).mpr ?_
    exact (List.mem_cons.mp hother).imp_right (hbound other)
  step_mono hx h scope inner outer hbound := by
    obtain ⟨scope', inner', outer', hstate, hnames, htouches, hbinds⟩ := hx scope inner outer hbound
    exact ⟨scope', inner', outer', hstate, hnames, htouches, fun a ha => (hbinds a ha).mono (h a)⟩

/-- An assignment to a variable that is bound in front, or that may be touched. -/
theorem whole_touching_assign {target : Expr} {value : Value}
    (h : ∀ name path, target.place? = .ok (name, path) → name ∈ bound ∨ P name) :
    (touching P).Whole bound (assign target value) := by
  intro inner outer hbound
  -- a failing assignment changes nothing
  cases hassign : Scopes.assign (inner ++ outer) target value with
  | error e =>
    refine ⟨inner, outer, ?_, rfl, .refl P outer⟩
    unfold assign
    rw [hassign]
  | ok after =>
    obtain ⟨name, path, new, hplace, rfl⟩ := Scopes.exists_update_of_assign hassign
    have hstate : (assign target value (inner ++ outer)).2 = (inner ++ outer).update name new := by
      unfold assign
      rw [hassign]
    rw [hstate, Scopes.update_append]
    split
    · exact ⟨inner.update name new, outer, rfl, Scopes.names_update, .refl P outer⟩
    · next hfree =>
      -- the name has no value in front, so it is none of those that are bound there
      have hname : P name := (h name path hplace).resolve_left fun hmem => hfree (hbound name hmem)
      exact ⟨inner, outer.update name new, rfl, rfl, Scopes.touches_update hname⟩

/-- An evaluation that finds no scopes in front touches only some of the variables. -/
theorem touches_of_whole (h : (touching P).Whole [] x) (s : Scopes) : s.Touches P (x s).2 := by
  obtain ⟨inner', outer', hstate, hnames, htouches⟩ := h [] s fun _ => nofun
  obtain rfl : inner' = [] := Scopes.eq_nil_of_names hnames
  rw [List.nil_append, List.nil_append] at hstate
  rwa [hstate]

end Eval

namespace Expr

/-! ### Expressions -/

/-- Somewhere in the expression stands an assignment to a variable, or to a component of one, whose
name is not bound in the expression where the assignment stands. -/
def AssignsTo (e : Expr) (name : String) : Prop :=
  ∃ (node target value : Expr) (inner : List String) (path : List Nat),
    node.StandsIn inner e [] ∧ node.form = .assign target value ∧
      target.place? = .ok (name, path) ∧ name ∉ inner

variable {e : Expr} {name : String}

/-- What is assigned to and not bound is free. -/
theorem AssignsTo.mem_freeVariables (h : e.AssignsTo name) : name ∈ e.freeVariables := by
  obtain ⟨node, target, value, inner, path, hstands, hform, hplace, hfree⟩ := h
  have htarget : name ∈ target.freeUses inner :=
    (mem_freeUses_of_place? hplace).resolve_left hfree
  refine Expr.mem_freeVariables.mpr (hstands.freeUses_subset ?_)
  rw [node.freeUses_eq, hform, Form.freeUses]
  exact List.mem_append_left _ htarget

/-- **Touched variables.** An evaluation, whether it ends in a value or in an error, leaves all
variables as they are but those that the expression assigns to. -/
theorem touches_eval (e : Expr) (s : Scopes) : s.Touches e.AssignsTo (e.eval s).2 := by
  refine Eval.touches_of_whole (Eval.Law.whole_eval fun node inner hstands => ?_) s
  refine ⟨fun _ _ => .inr trivial, fun target value hform v => ?_⟩
  refine Eval.whole_touching_assign fun name path hplace => ?_
  by_cases hbound : name ∈ inner
  · exact .inl hbound
  · exact .inr ⟨node, target, value, inner, path, hstands, hform, hplace, hbound⟩

/-! ### Calls -/

/-- A call leaves the names of the scopes as they are. -/
theorem names_call (function : Expr) (args : List Value) (s : Scopes) :
    Scopes.names (function.call args s).2 = s.names := by
  have hlaw : (Eval.touching fun _ => True).Whole [] (function.call args) :=
    Eval.Law.whole_call (fun _ _ _ _ _ _ _ => Eval.whole_touching_assign fun _ _ _ => .inr trivial)
      (fun _ _ => trivial) args
  exact (Eval.touches_of_whole hlaw s).names

/-- The variables after calls of functions, one after another from no variables. -/
def afterCalls (calls : List (Expr × List Value)) : Scopes :=
  calls.foldl (fun s call => (call.1.call call.2 s).2) []

theorem afterCalls_eq_nil (calls : List (Expr × List Value)) : afterCalls calls = [] := by
  induction calls using List.reverseRecOn with
  | nil => rfl
  -- the last call starts from no variables, as the first one does
  | append_singleton calls call ih =>
    rw [afterCalls, List.foldl_append, ← afterCalls, ih]
    exact Scopes.eq_nil_of_names (names_call call.1 call.2 [])

/-- **Evaluation touches only assigned variables.** Whether an evaluation ends in a value or in an
error, there are as many scopes as before with the same names in each, and a variable has another
value only if the expression assigns to its name where the name is free. Without assignments no
variable changes. Calls that share their variables do not see one another: after any calls, a
function gives what it gives by itself. -/
theorem eval_assigns (e : Expr) (s : Scopes) :
    Scopes.names (e.eval s).2 = s.names ∧
      (∀ depth name, Scopes.value? (e.eval s).2 depth name ≠ s.value? depth name →
        e.AssignsTo name ∧ name ∈ e.freeVariables) ∧
      (e.AssignFree → (e.eval s).2 = s) ∧
      ∀ (calls : List (Expr × List Value)) (function : Expr) (args : List Value),
        (function.call args (afterCalls calls)).1 = function.applyTo args := by
  have htouches := e.touches_eval s
  refine ⟨htouches.names, fun depth name hne => ?_, fun hfree => hfree.keeps_eval s, ?_⟩
  · have hassigns := htouches.values depth name hne
    exact ⟨hassigns, hassigns.mem_freeVariables⟩
  · intro calls function args
    rw [afterCalls_eq_nil]
    rfl

/-- The block `{ let mut seen = false; seen = true; total.0 = seen; }`. -/
def keepTotal : Expr :=
  ofForm (some .unit) (.block
    [.letBind "seen" true (some .bool) (some (boolLiteral false)),
      .eval (ofForm (some .unit) (.assign (var "seen" .bool) (boolLiteral true))),
      .eval (ofForm (some .unit) (.assign
        (ofForm (some .bool) (.field (var "total" (.tuple [.bool])) 0)) (var "seen" .bool)))] none)

/-- Of the two variables that are assigned to, the one from outside has changed; the other one is
not the one of the same name outside. -/
theorem eval_assigns_keepTotal :
    (keepTotal.eval [[("seen", .null)], [("total", .row [.null])]]).2 =
        [[("seen", .null)], [("total", .row [.bool true])]] ∧
      keepTotal.AssignsTo "total" ∧ (var "total" .bool).AssignFree ∧
      ((var "total" .bool).eval [[("total", .bool true)]]).2 = [[("total", .bool true)]] := by
  have hfree : (var "total" .bool).AssignFree := .leaf nofun rfl
  refine ⟨rfl, ?_, hfree, ?_⟩
  · obtain ⟨-, hvalues, -⟩ := keepTotal.eval_assigns [[("seen", .null)], [("total", .row [.null])]]
    exact (hvalues 1 "total" nofun).1
  · obtain ⟨-, -, hkeeps, -⟩ := (var "total" .bool).eval_assigns [[("total", .bool true)]]
    exact hkeeps hfree

end Expr
end DeltaCircuit
