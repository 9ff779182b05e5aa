import DeltaCircuit.Proofs.Assoc
import DeltaCircuit.Proofs.Eval.Steps
import DeltaCircuit.Proofs.Expr.Built
import Mathlib.Data.List.Forall2

/-!
# Patterns that are accepted bind

Three walks over a pattern have to agree: the check against a type, which looks through a reference
at every level, the list of the names that are bound, and the evaluation, which takes a value apart
and binds as it goes. A pattern without constants that a type accepts matches every value of the
shape of the type, and a name that occurs more than once is bound to the component at its last
place.

* `Pattern.HasShape` — the values that have fields wherever the pattern takes them apart.
* `Pattern.occurrences`, `Value.at?` — the places of names in a pattern, and what stands there in a
  value.
* `Pattern.Bound` — a scope in which the names of a pattern have been bound.
* `Pattern.bind_of_check` — a pattern that is accepted binds.
* `Expr.call_of_closure`, `Expr.error_of_forLoop` — calls and loops do not fail for a pattern.
* `Pattern.accepted_binds` — all together.
-/

namespace DeltaCircuit

/-! ### Shapes -/

mutual

/-- Wherever the pattern takes a component apart and the type of the component is a tuple, or a
reference to one, the component is a row of as many fields. -/
def Pattern.HasShape : Pattern → Ty → Value → Prop
  | .tuple fields, type, value =>
    ∀ types, type.deref.tupleFields? = some types →
      ∃ values, value = .row values ∧ values.length = types.length ∧
        Pattern.HasShapes fields types values
  | .identifier _ _, _, _ => True
  | .wildcard, _, _ => True
  | .literal _, _, _ => True
termination_by structural x => x

def Pattern.HasShapes : List Pattern → List Ty → List Value → Prop
  | pattern :: patterns, type :: types, value :: values =>
    pattern.HasShape type value ∧ Pattern.HasShapes patterns types values
  | _, _, _ => True
termination_by structural x => x

end

/-! ### Places of names -/

mutual

/-- The names that a pattern binds, each with the fields on the way to it, from left to right. -/
def Pattern.occurrences : Pattern → List (String × List Nat)
  | .identifier name _ => [(name, [])]
  | .tuple fields => Pattern.occurrencesFrom 0 fields
  | .wildcard => []
  | .literal _ => []
termination_by structural x => x

/-- The same of patterns for the fields of a row, from the field of an index on. -/
def Pattern.occurrencesFrom (index : Nat) : List Pattern → List (String × List Nat)
  | [] => []
  | pattern :: patterns =>
    pattern.occurrences.map (fun found => (found.1, index :: found.2)) ++
      Pattern.occurrencesFrom (index + 1) patterns
termination_by structural x => x

end

/-- The field of a row. -/
def Value.component? : Value → Nat → Option Value
  | .row fields, index => fields[index]?
  | _, _ => none

/-- The component of a value at the end of a path of fields. -/
def Value.at? (value : Value) (path : List Nat) : Option Value := path.foldlM Value.component? value

/-- **Bound names.** The scope has changed at the names of the pattern only, and each of them has the
component of the value at the last place of the name in the pattern. -/
structure Pattern.Bound (pattern : Pattern) (value : Value) (scope scope' : List (String × Value)) :
    Prop where
  others : ∀ name, name ∉ pattern.names → Assoc.get? scope' name = Assoc.get? scope name
  names : ∀ name ∈ pattern.names, ∃ path component,
    Assoc.get? pattern.occurrences.reverse name = some path ∧ value.at? path = some component ∧
      Assoc.get? scope' name = some component

mutual

theorem Pattern.map_occurrences : ∀ pattern : Pattern,
    pattern.occurrences.map Prod.fst = pattern.names
  | .identifier _ _ => rfl
  | .wildcard => rfl
  | .literal _ => rfl
  | .tuple fields => Pattern.map_occurrencesFrom fields 0

theorem Pattern.map_occurrencesFrom : ∀ (patterns : List Pattern) (index : Nat),
    (Pattern.occurrencesFrom index patterns).map Prod.fst = Pattern.namesAll patterns
  | [], _ => rfl
  | pattern :: patterns, index => by
    rw [Pattern.occurrencesFrom, List.map_append, List.map_map, Pattern.namesAll,
      Pattern.map_occurrencesFrom patterns, ← Pattern.map_occurrences pattern]
    rfl

end

/-! ### Binding one name after another -/

/-- A scope after variables have been bound one after another. -/
def bindEach (scope found : List (String × Value)) : List (String × Value) :=
  found.foldl (fun scope binding => Assoc.set scope binding.1 binding.2) scope

theorem bindEach_append (scope found found' : List (String × Value)) :
    bindEach scope (found ++ found') = bindEach (bindEach scope found) found' :=
  List.foldl_append

/-- The variable that is bound last counts. -/
theorem get?_bindEach (scope found : List (String × Value)) (name : String) :
    Assoc.get? (bindEach scope found) name =
      (Assoc.get? found.reverse name).or (Assoc.get? scope name) := by
  induction found using List.reverseRecOn with
  | nil => rfl
  | append_singleton found last ih =>
    obtain ⟨key, value⟩ := last
    -- the last variable hides the others of its name, and is the first one from behind
    rw [bindEach_append, bindEach, List.foldl_cons, List.foldl_nil, Assoc.get?_set, ih,
      List.reverse_append, List.reverse_singleton, List.singleton_append, Assoc.get?_cons]
    split <;> rfl

/-- A variable is bound to what stands in the value at the place of its name. -/
def Value.Gave (value : Value) (occurrence : String × List Nat) (binding : String × Value) :
    Prop :=
  binding.1 = occurrence.1 ∧ value.at? occurrence.2 = some binding.2

/-- The last place of a name is where its last variable comes from. -/
theorem Value.Gave.get? {value : Value} {occurrences : List (String × List Nat)}
    {found : List (String × Value)} (h : List.Forall₂ value.Gave occurrences found)
    (name : String) :
    (name ∉ occurrences.map Prod.fst ∧ Assoc.get? found name = none) ∨
      ∃ path component, Assoc.get? occurrences name = some path ∧
        value.at? path = some component ∧ Assoc.get? found name = some component := by
  induction h with
  | nil => exact .inl ⟨List.not_mem_nil, rfl⟩
  | @cons occurrence binding occurrences found hgave _ ih =>
    obtain ⟨key, path⟩ := occurrence
    obtain ⟨key', component⟩ := binding
    obtain ⟨rfl, hcomponent⟩ := hgave
    rw [Assoc.get?_cons, Assoc.get?_cons]
    by_cases hkey : key' = name
    · rw [if_pos hkey, if_pos hkey]
      exact .inr ⟨path, component, rfl, hcomponent, rfl⟩
    · rw [if_neg hkey, if_neg hkey]
      refine ih.imp_left fun ⟨hnot, hnone⟩ => ⟨fun hmem => ?_, hnone⟩
      exact (List.mem_cons.mp hmem).elim (fun heq => hkey heq.symm) hnot

theorem Pattern.bound_bindEach {pattern : Pattern} {value : Value} {found : List (String × Value)}
    (h : List.Forall₂ value.Gave pattern.occurrences found) (scope : List (String × Value)) :
    pattern.Bound value scope (bindEach scope found) := by
  have hlast (name : String) := Value.Gave.get? (List.forall₂_reverse_iff.mpr h) name
  have hnames (name : String) :
      name ∈ pattern.occurrences.reverse.map Prod.fst ↔ name ∈ pattern.names := by
    -- a name that the pattern binds has a last place, and any other name has none
    rw [List.map_reverse, List.mem_reverse, pattern.map_occurrences]
  constructor
  · intro name hname
    rcases hlast name with ⟨-, hnone⟩ | ⟨path, component, hpath, -, -⟩
    · rw [get?_bindEach, hnone, Option.none_or]
    · have hmem := Assoc.isSome_get?_iff.mp (Option.isSome_iff_exists.mpr ⟨path, hpath⟩)
      exact absurd ((hnames name).mp hmem) hname
  · intro name hname
    rcases hlast name with ⟨hnot, -⟩ | ⟨path, component, hpath, hcomponent, hfound⟩
    · exact absurd ((hnames name).mpr hname) hnot
    · refine ⟨path, component, hpath, hcomponent, ?_⟩
      rw [get?_bindEach, hfound, Option.some_or]

/-! ### Patterns -/

open ExceptT (gives_bind gives_pure)

mutual

/-- The variables that a pattern binds, in order, are what the value has at the places of the
names. -/
theorem Pattern.exists_found : ∀ (pattern : Pattern) (type : Ty) (value : Value),
    pattern.constants = [] → pattern.check type = .ok () → pattern.HasShape type value →
    ∃ found, List.Forall₂ value.Gave pattern.occurrences found ∧
      ∀ scope outer, (pattern.bind value).Gives (scope :: outer) true (bindEach scope found :: outer)
  | .identifier name mutable, type, value, _, _, _ =>
    ⟨[(name, value)], .cons ⟨rfl, rfl⟩ .nil, fun _ _ => rfl⟩
  | .wildcard, type, value, _, _, _ => ⟨[], .nil, fun _ _ => rfl⟩
  | .literal constant, type, value, h, _, _ => absurd h (List.cons_ne_nil _ _)
  | .tuple fields, type, value, hconstants, hcheck, hshape => by
    rw [Pattern.check] at hcheck
    split at hcheck
    · cases hcheck
    · next types htypes =>
      split at hcheck
      · next hlength =>
        obtain ⟨values, rfl, hvalues, hshapes⟩ := hshape types htypes
        obtain ⟨found, hfound, hbind⟩ := Pattern.exists_foundAll fields types values values 0
          hconstants hlength.symm hvalues hcheck hshapes rfl
        refine ⟨found, hfound, fun scope outer => ?_⟩
        -- by its shape the value has as many fields as the type, and so as the pattern
        rw [Pattern.bind, if_pos (hvalues.trans hlength)]
        exact hbind scope outer
      · cases hcheck

/-- Patterns for the fields of a row, from the field of an index on. -/
theorem Pattern.exists_foundAll : ∀ (patterns : List Pattern) (types : List Ty)
    (values all : List Value) (index : Nat), Pattern.constantsAll patterns = [] →
    patterns.length = types.length → values.length = types.length →
    Pattern.checkAll patterns types = .ok () → Pattern.HasShapes patterns types values →
    all.drop index = values →
    ∃ found, List.Forall₂ (Value.row all).Gave (Pattern.occurrencesFrom index patterns) found ∧
      ∀ scope outer, (Pattern.bindAll patterns values).Gives (scope :: outer) true
        (bindEach scope found :: outer)
  | [], types, values, all, index, _, _, _, _, _, _ =>
    ⟨[], .nil, fun _ _ => by cases values <;> rfl⟩
  | pattern :: patterns, type :: types, value :: values, all, index, hconstants, hlength, hvalues,
      hcheck, hshape, hdrop => by
    obtain ⟨hconstant, hconstants⟩ := List.append_eq_nil_iff.mp hconstants
    rw [Pattern.checkAll] at hcheck
    obtain ⟨_, hfirst, hrest⟩ := Except.bind_eq_ok.mp hcheck
    -- the fields still to be matched are those from the index on
    have hfield : all[index]? = some value := by
      rw [← List.head?_drop, hdrop, List.head?_cons]
    have hdrop' : all.drop (index + 1) = values := by
      rw [← List.tail_drop, hdrop, List.tail_cons]
    obtain ⟨found, hfound, hbind⟩ :=
      Pattern.exists_found pattern type value hconstant hfirst hshape.1
    obtain ⟨found', hfound', hbind'⟩ := Pattern.exists_foundAll patterns types values all (index + 1)
      hconstants (Nat.succ.inj hlength) (Nat.succ.inj hvalues) hrest hshape.2 hdrop'
    -- what stands at a place of the field stands at the longer place of the row
    have hgave : List.Forall₂ (Value.row all).Gave
        (pattern.occurrences.map fun place => (place.1, index :: place.2)) found := by
      refine List.forall₂_map_left_iff.mpr (hfound.imp fun place binding hplace => ?_)
      refine ⟨hplace.1, ?_⟩
      rw [Value.at?, List.foldlM_cons, Value.component?, hfield]
      exact hplace.2
    refine ⟨found ++ found', List.rel_append hgave hfound', fun scope outer => ?_⟩
    rw [Pattern.bindAll, bindEach_append]
    exact gives_bind.mpr ⟨true, _, hbind scope outer, hbind' _ outer⟩

end

variable {pattern : Pattern} {type : Ty} {value : Value}

/-- **Patterns.** A pattern without constants that a type accepts matches every value of the shape
of the type, and binds its names. -/
theorem Pattern.bind_of_check (hconstants : pattern.constants = [])
    (hcheck : pattern.check type = .ok ()) (hshape : pattern.HasShape type value)
    (scope : List (String × Value)) (outer : Scopes) :
    ∃ scope', (pattern.bind value).Gives (scope :: outer) true (scope' :: outer) ∧
      pattern.Bound value scope scope' := by
  obtain ⟨found, hfound, hbind⟩ := pattern.exists_found type value hconstants hcheck hshape
  exact ⟨_, hbind scope outer, Pattern.bound_bindEach hfound scope⟩

/-! ### Errors of rounds -/

namespace Eval

variable {s : Scopes} {e : EvalError}

/-- Leaving out the value of an evaluation does not fail. -/
theorem error_of_discard {x : Eval Value}
    (h : ((discard x : Eval Unit) s).1 = .error e) : (x s).1 = .error e := by
  obtain ⟨result, t, hrun⟩ : ∃ result t, x s = (result, t) := ⟨_, _, rfl⟩
  cases result with
  | ok value =>
    rw [ExceptT.discard_run_ok hrun] at h
    cases h
  | error e' =>
    rw [ExceptT.discard_run_error hrun] at h
    rw [hrun]
    exact congrArg Except.error (Except.error.inj h)

/-- Where a run over items fails, it fails at one of them. -/
theorem exists_of_forEach_error {action : Value → Eval Unit} {items : List Value}
    (h : (forEach action items s).1 = .error e) :
    ∃ item ∈ items, ∃ s', (action item s').1 = .error e := by
  induction items generalizing s with
  | nil => cases h
  | cons item items ih =>
    obtain ⟨result, t, hrun⟩ : ∃ result t, action item s = (result, t) := ⟨_, _, rfl⟩
    rw [forEach] at h
    -- the run ends at the first item that fails
    cases result with
    | error e' =>
      rw [ExceptT.bind_run_error hrun] at h
      exact ⟨item, List.mem_cons_self, s, by rw [hrun]; exact h⟩
    | ok a =>
      rw [ExceptT.bind_run_ok hrun] at h
      obtain ⟨other, hother, s', herror⟩ := ih h
      exact ⟨other, List.mem_cons_of_mem item hother, s', herror⟩

end Eval

/-! ### Calls -/

/-- An argument for a parameter that declares its type: the pattern has no constants, and the
argument has the shape of the type. -/
def Parameter.Takes (param : Parameter) (arg : Value) : Prop :=
  ∃ type, param.type = some type ∧ param.pattern.constants = [] ∧ param.pattern.HasShape type arg

variable {params : List Parameter} {args : List Value}

theorem Parameter.bindAll_of_check (hargs : List.Forall₂ Parameter.Takes params args)
    (hcheck : Expr.checkParameters params = .ok ()) (scope : List (String × Value))
    (outer : Scopes) :
    ∃ scope', (Parameter.bindAll params args).Gives (scope :: outer) () (scope' :: outer) := by
  induction hargs generalizing scope with
  | nil => exact ⟨scope, rfl⟩
  | @cons param arg params args htakes _ ih =>
    obtain ⟨pattern, declared⟩ := param
    obtain ⟨type, rfl, hconstants, hshape⟩ := htakes
    rw [Expr.checkParameters] at hcheck
    obtain ⟨_, hpattern, hrest⟩ := Except.bind_eq_ok.mp hcheck
    obtain ⟨scope', hbind, -⟩ := Pattern.bind_of_check hconstants hpattern hshape scope outer
    obtain ⟨scope'', hbinds⟩ := ih hrest scope'
    exact ⟨scope'', gives_bind.mpr ⟨true, _, hbind, hbinds⟩⟩

namespace Expr

variable {f loop iterated body block : Expr} {s s' : Scopes} {items : List Value}

theorem checkParameters_of_closure (h : closure params body = .ok f) :
    checkParameters params = .ok () := by
  obtain ⟨_, hcheck, -⟩ := Except.bind_eq_ok.mp h
  exact hcheck

/-- **Calls.** A closure whose parameters declare their types takes arguments of these types: it
runs its body in a scope of the parameters. -/
theorem call_of_closure (hclosure : closure params body = .ok f)
    (hargs : List.Forall₂ Parameter.Takes params args) (s : Scopes) :
    ∃ scope, (Parameter.bindAll params args).Gives ([] :: s) () (scope :: s) ∧
      (f.call args s).1 = (body.eval (scope :: s)).1 := by
  obtain ⟨scope, hbind⟩ :=
    Parameter.bindAll_of_check hargs (checkParameters_of_closure hclosure) [] s
  refine ⟨scope, hbind, ?_⟩
  obtain rfl := closure_eq_ok hclosure
  have hcall : (ofForm (some (.function body.type (params.map parameterType)))
      (.closure params body)).call args = Eval.inScope (do
        Parameter.bindAll params args
        body.eval) := if_pos hargs.length_eq
  -- the parameters are bound in the scope of the call, and the body is run in it
  have hrun : (do Parameter.bindAll params args; body.eval : Eval Value) ([] :: s) =
      body.eval (scope :: s) := ExceptT.bind_run_ok hbind
  rw [hcall, Eval.inScope, hrun]
  rfl

/-! ### Loops -/

theorem exists_element_of_forLoop (h : forLoop pattern iterated block = .ok loop) :
    ∃ type element, iterated.type = some type ∧ type.deref.kind = .vec element ∧
      pattern.check element = .ok () := by
  unfold forLoop at h
  split at h
  · cases h
  · obtain ⟨type, htype, h⟩ := Except.bind_eq_ok.mp h
    dsimp only at h
    split at h
    · next element helement =>
      obtain ⟨_, hcheck, -⟩ := Except.bind_eq_ok.mp h
      exact ⟨type, element, requireType_eq_ok.mp htype, helement, hcheck⟩
    · cases h

/-- **Loops.** A loop over a vector of items of the shape of its elements fails only where its body
does, in a round in which the pattern has bound its names. -/
theorem error_of_forLoop (hloop : forLoop pattern iterated block = .ok loop)
    (hconstants : pattern.constants = []) (hitems : iterated.eval.Gives s (.vec items) s')
    (hshape : ∀ type element, iterated.type = some type → type.deref.kind = .vec element →
      ∀ item ∈ items, pattern.HasShape element item) {e : EvalError}
    (herror : (loop.eval s).1 = .error e) :
    ∃ item ∈ items, ∃ outer scope, (pattern.bind item).Gives ([] :: outer) true (scope :: outer) ∧
      pattern.Bound item [] scope ∧ (block.eval (scope :: outer)).1 = .error e := by
  obtain ⟨type, element, htype, helement, hcheck⟩ := exists_element_of_forLoop hloop
  obtain rfl := forLoop_eq_ok hloop
  have hvector : (Eval.ofExcept (Value.vec items).items).Gives s' items s' := rfl
  rw [ofForm, Expr.eval, ExceptT.bind_run_ok hitems, ExceptT.bind_run_ok hvector] at herror
  -- what follows the rounds does not fail
  obtain ⟨result, t, hrounds⟩ : ∃ result t, Eval.forEach (fun item => Eval.inScope do
      let fits ← pattern.bind item
      if fits then discard block.eval else throw (.itemMismatch item pattern)) items s' =
        (result, t) := ⟨_, _, rfl⟩
  cases result with
  | ok a =>
    rw [ExceptT.bind_run_ok hrounds] at herror
    cases herror
  | error e' =>
    rw [ExceptT.bind_run_error hrounds] at herror
    obtain rfl : e' = e := Except.error.inj herror
    obtain ⟨item, hitem, outer, hround⟩ :=
      Eval.exists_of_forEach_error (congrArg Prod.fst hrounds)
    obtain ⟨scope, hbind, hbound⟩ := Pattern.bind_of_check hconstants hcheck
      (hshape type element htype helement item hitem) [] outer
    refine ⟨item, hitem, outer, scope, hbind, hbound, ?_⟩
    have hbody : ((discard block.eval : Eval Unit) (scope :: outer)).1 = .error e' := by
      have hrun := ExceptT.bind_run_ok (f := fun fits =>
        -- the pattern fits, so the round goes on to the body
        if fits then (discard block.eval : Eval Unit) else throw (.itemMismatch item pattern)) hbind
      rw [if_pos rfl] at hrun
      rw [← hrun]
      exact hround
    exact Eval.error_of_discard hbody

end Expr

/-- **Accepted patterns bind.** A pattern without constants that a type accepts matches every value
of the shape of the type: the innermost scope changes at the names of the pattern only, and each of
them has the component at its last place. So a closure whose parameters declare their types runs its
body on arguments of their shapes, and a loop over items of the shape of its elements, which are not
NULL where the pattern takes them apart, fails in a body only. -/
theorem Pattern.accepted_binds :
    (∀ (pattern : Pattern) (type : Ty) (value : Value) (scope : List (String × Value))
      (outer : Scopes), pattern.constants = [] → pattern.check type = .ok () →
      pattern.HasShape type value →
      ∃ scope', pattern.bind value (scope :: outer) = (.ok true, scope' :: outer) ∧
        pattern.Bound value scope scope') ∧
    (∀ (params : List Parameter) (body f : Expr) (args : List Value) (s : Scopes),
      Expr.closure params body = .ok f → List.Forall₂ Parameter.Takes params args →
      ∃ scope, Parameter.bindAll params args ([] :: s) = (.ok (), scope :: s) ∧
        (f.call args s).1 = (body.eval (scope :: s)).1) ∧
    ∀ (pattern : Pattern) (iterated block loop : Expr) (s s' : Scopes) (items : List Value)
      (e : EvalError), Expr.forLoop pattern iterated block = .ok loop → pattern.constants = [] →
      iterated.eval s = (.ok (.vec items), s') →
      (∀ type element, iterated.type = some type → type.deref.kind = .vec element →
        ∀ item ∈ items, pattern.HasShape element item) →
      (loop.eval s).1 = .error e →
      ∃ item ∈ items, ∃ outer scope,
        pattern.bind item ([] :: outer) = (.ok true, scope :: outer) ∧
          pattern.Bound item [] scope ∧ (block.eval (scope :: outer)).1 = .error e :=
  ⟨fun _ _ _ scope outer hconstants hcheck hshape =>
      Pattern.bind_of_check hconstants hcheck hshape scope outer,
    fun _ _ _ _ s hclosure hargs => Expr.call_of_closure hclosure hargs s,
    fun _ _ _ _ _ _ _ _ hloop hconstants hitems hshape herror =>
      Expr.error_of_forLoop hloop hconstants hitems hshape herror⟩

/-- The pattern `((a, _), a)`. -/
def Pattern.nested : Pattern :=
  .tuple [.tuple [.identifier "a" false, .wildcard], .identifier "a" false]

/-- The type of a reference to a tuple of a reference to a tuple and a number. -/
def Ty.nested : Ty := .byRef (.tuple [.byRef (.rawTuple [.i32, .i32]), .i32])

def Value.nested : Value := .row [.row [.int 1, .int 2], .int 3]

theorem Pattern.hasShape_nested : Pattern.nested.HasShape .nested .nested := by
  intro types htypes
  obtain rfl := Option.some.inj htypes
  refine ⟨_, rfl, rfl, fun types htypes => ?_, trivial, trivial⟩
  obtain rfl := Option.some.inj htypes
  exact ⟨_, rfl, rfl, trivial, trivial, trivial⟩

/-- A name that occurs twice, below references: bound, called with, and looped over with a body that
fails for a reason of its own. -/
theorem Pattern.accepted_binds_nested :
    (∃ scope, Pattern.nested.bind .nested [[("a", .null), ("b", .null)]] = (.ok true, [scope]) ∧
      Pattern.nested.Bound .nested [("a", .null), ("b", .null)] scope) ∧
    (∃ f scope, Expr.closure [⟨.nested, some .nested⟩] (.var "a" .i32) = .ok f ∧
      Parameter.bindAll [⟨.nested, some .nested⟩] [.nested] [[]] = (.ok (), [scope]) ∧
      (f.call [.nested] []).1 = .ok (.int 3)) ∧
    ∃ loop item, Expr.forLoop .nested (.var "rows" (.vec .nested))
        (.block [.eval (.var "missing" .i32)] none) = .ok loop ∧ item = .nested ∧
      ∃ outer scope, Pattern.nested.bind item ([] :: outer) = (.ok true, scope :: outer) ∧
        ((Expr.block [.eval (.var "missing" .i32)] none).eval (scope :: outer)).1 =
          .error (.unbound "missing") := by
  obtain ⟨hbind, hcall, hloop⟩ := Pattern.accepted_binds
  refine ⟨hbind _ .nested _ _ [] rfl rfl Pattern.hasShape_nested, ?_, ?_⟩
  · obtain ⟨scope, hscope, -⟩ := hcall [⟨.nested, some .nested⟩] (.var "a" .i32) _ [.nested] [] rfl
      (.cons ⟨.nested, rfl, rfl, Pattern.hasShape_nested⟩ .nil)
    exact ⟨_, scope, rfl, hscope, rfl⟩
  · obtain ⟨item, hitem, outer, scope, hscope, -, herror⟩ :=
      hloop .nested (.var "rows" (.vec .nested)) (.block [.eval (.var "missing" .i32)] none) _
        [[("rows", .vec [.nested])]] _ [.nested] (.unbound "missing") rfl rfl rfl
        (fun type element htype helement item hitem => by
          obtain rfl := Option.some.inj htype
          obtain rfl := Kind.vec.inj helement
          obtain rfl := List.mem_singleton.mp hitem
          exact Pattern.hasShape_nested) rfl
    exact ⟨_, item, rfl, List.mem_singleton.mp hitem, outer, scope, hscope, herror⟩

end DeltaCircuit
