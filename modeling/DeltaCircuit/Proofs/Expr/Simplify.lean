import DeltaCircuit.Expr.Simplify
import DeltaCircuit.Proofs.Eval.Frame
import DeltaCircuit.Proofs.Eval.Refinement
import DeltaCircuit.Proofs.Expr.Built
import DeltaCircuit.Proofs.Value

/-!
# Simplification keeps values

A simplified expression gives whatever the expression gives. Two things could go wrong. A rule that
leaves a part out would lose what the part assigns, and a cast to the own type of its operand is no
identity for values that are not of that type; both are excluded by conditions on the expression.

* `Expr.Guarded` — the parts that a rule may leave out assign nothing.
* `Expr.CastsKeep` — casts to the type that the operand has already keep its values.
* `Expr.Rule` — the rules of simplification, one constructor for each.
* `Expr.Rule.origin`, `Expr.Rule.type_eq` — where the result of a rule comes from, and its type.
* `Expr.Shape` — what every step of the walk keeps.
* `Expr.eval_simplify` — the value and the variables of a simplified expression.
-/

namespace DeltaCircuit

/-! ### Conditions -/

/-- The parts of a form that a rule may leave out. -/
def Form.droppable : Form → List Expr
  | .binary (.logical _) left right => [left, right]
  | .tuple fields | .rawTuple fields => fields
  | _ => []

namespace Expr

/-- No assignment occurs in an operand of a logical operator or in a component of a tuple
constructor. -/
def Guarded (e : Expr) : Prop :=
  e.Everywhere fun node => ∀ part ∈ node.form.droppable, part.AssignFree

/-- A cast whose operand has the type of the cast already gives the values of the operand. -/
def CastsKeep (e : Expr) : Prop :=
  e.Everywhere fun node => ∀ operand type, node.form = .cast operand → node.type = some type →
    operand.type = some type → ∀ s value s', operand.eval.Gives s value s' →
      value.convert type = .ok value

/-! ### The rules -/

/-- The rules of simplification: what a node of a type and a form becomes. -/
inductive Rule (type : Ty) : Form → Expr → Prop where
  /-- A component of a tuple constructor. -/
  | component {base : Expr} {fields : List Expr} {index : Nat} {component : Expr} :
    base.components? = some fields → fields[index]? = some component →
    component.type = some type → Rule type (.field base index) component
  /-- The negation of a constant. -/
  | negated {operand : Expr} {value : Bool} {constant : Expr} :
    operand.asBool? = some value → literal (some (.bool (!value))) type = .ok constant →
    Rule type (.unary .not operand) constant
  /-- A constant that decides a logical operation alone. -/
  | decided {op : LogicalOp} {left right constant : Expr} :
    left.asBool? = some op.absorbing ∨ right.asBool? = some op.absorbing →
    literal (some (.bool op.absorbing)) type = .ok constant →
    Rule type (.binary (.logical op) left right) constant
  /-- A neutral constant on the left. -/
  | second {op : LogicalOp} {left right : Expr} : left.asBool? = some (!op.absorbing) →
    right.type = some type → Rule type (.binary (.logical op) left right) right
  /-- A neutral constant on the right. -/
  | first {op : LogicalOp} {left right : Expr} : right.asBool? = some (!op.absorbing) →
    left.type = some type → Rule type (.binary (.logical op) left right) left
  /-- What has been borrowed. -/
  | borrowed {operand target : Expr} {mutable : Bool} : operand.form = .borrow target mutable →
    Rule type (.deref operand) target
  /-- The operand of a cast to its own type. -/
  | uncast {operand : Expr} : operand.type = some type → Rule type (.cast operand) operand

theorem eq_not_of_isSome {value : Option Bool} {b : Bool} (hsome : value.isSome = true)
    (hne : value ≠ some b) : value = some (!b) := by
  cases value with
  | none => cases hsome
  | some c => cases b <;> cases c <;> simp at hne ⊢

theorem simplerLogical?_eq_ok {type : Ty} {op : LogicalOp} {left right simpler : Expr}
    (h : simplerLogical? type op left right = .ok (some simpler)) :
    Rule type (.binary (.logical op) left right) simpler := by
  unfold simplerLogical? at h
  dsimp only at h
  -- an absorbing operand decides; otherwise a neutral one goes
  by_cases habsorbs : left.asBool? = some op.absorbing ∨ right.asBool? = some op.absorbing
  · rw [if_pos (by simpa using habsorbs), Except.map_eq_ok] at h
    obtain ⟨constant, hconstant, h⟩ := h
    obtain rfl := Option.some.inj h
    exact .decided habsorbs hconstant
  · rw [if_neg (by simpa using habsorbs)] at h
    obtain ⟨hleft, hright⟩ := not_or.mp habsorbs
    split at h
    · rename_i hneutral
      simp only [Bool.and_eq_true, decide_eq_true_eq] at hneutral
      obtain rfl := Option.some.inj (Except.ok.inj h)
      exact .second (eq_not_of_isSome hneutral.1 hleft) hneutral.2
    · split at h
      · rename_i hneutral
        simp only [Bool.and_eq_true, decide_eq_true_eq] at hneutral
        obtain rfl := Option.some.inj (Except.ok.inj h)
        exact .first (eq_not_of_isSome hneutral.1 hright) hneutral.2
      · cases h

/-- **The rules are all there is.** What simplification turns a node into follows by one of the
rules. -/
theorem simplerForm?_eq_ok {e simpler : Expr} (h : e.simplerForm? = .ok (some simpler)) :
    ∃ type, e.type = some type ∧ Rule type e.form simpler := by
  obtain ⟨tag, _ | type, form⟩ := e
  · cases h
  refine ⟨type, rfl, ?_⟩
  unfold simplerForm? at h
  dsimp only at h ⊢
  split at h
  · rename_i base index
    have h := Except.ok.inj h
    rw [Option.filter_eq_some_iff, Option.bind_eq_some_iff] at h
    obtain ⟨⟨fields, hfields, hcomponent⟩, htype⟩ := h
    exact .component hfields hcomponent (by simpa using htype)
  · rename_i operand
    split at h
    · rename_i value hvalue
      rw [Except.map_eq_ok] at h
      obtain ⟨constant, hconstant, h⟩ := h
      obtain rfl := Option.some.inj h
      exact .negated hvalue hconstant
    · cases h
  · exact simplerLogical?_eq_ok h
  · split at h
    · rename_i hborrow
      obtain rfl := Option.some.inj (Except.ok.inj h)
      exact .borrowed hborrow
    · cases h
  · rename_i operand
    split at h
    · rename_i htype
      obtain rfl := Option.some.inj (Except.ok.inj h)
      exact .uncast htype
    · cases h
  · cases h

/-! ### What a rule gives -/

theorem form_of_components? {e : Expr} {fields : List Expr} (h : e.components? = some fields) :
    e.form = .tuple fields ∨ e.form = .rawTuple fields := by
  unfold components? at h
  split at h
  · rename_i hform
    obtain rfl := Option.some.inj h
    exact .inl hform
  · rename_i hform
    obtain rfl := Option.some.inj h
    exact .inr hform
  · cases h

/-- A component of a tuple constructor is a part that a walk enters, and one that a rule may leave
out. -/
theorem mem_of_components? {e component : Expr} {fields : List Expr} {index : Nat}
    (h : e.components? = some fields) (hcomponent : fields[index]? = some component) :
    component ∈ e.form.walked ∧ component ∈ e.form.droppable := by
  have hmem := List.mem_of_getElem? hcomponent
  rcases form_of_components? h with hform | hform
  · rw [hform]
    exact ⟨hmem, hmem⟩
  · rw [hform]
    exact ⟨hmem, hmem⟩

/-- **Where the result of a rule comes from.** It is a constant of the type, a part, or a part of a
part. -/
theorem Rule.origin {type : Ty} {form : Form} {simpler : Expr} (hrule : Rule type form simpler) :
    (∃ value, literal value type = .ok simpler) ∨ simpler ∈ form.walked ∨
      ∃ part ∈ form.walked, simpler ∈ part.form.walked := by
  cases hrule with
  | @component base fields index _ hfields hcomponent _ =>
    exact .inr (.inr ⟨base, by simp [Form.walked], (mem_of_components? hfields hcomponent).1⟩)
  | negated _ hconstant => exact .inl ⟨_, hconstant⟩
  | decided _ hconstant => exact .inl ⟨_, hconstant⟩
  | second => exact .inr (.inl (by simp [Form.walked]))
  | first => exact .inr (.inl (by simp [Form.walked]))
  | @borrowed operand _ mutable hborrow =>
    exact .inr (.inr ⟨operand, by simp [Form.walked], by simp [hborrow, Form.walked]⟩)
  | uncast => exact .inr (.inl (by simp [Form.walked]))

/-- What holds everywhere in a node, and of the constants of its type, holds everywhere in what a
rule gives. -/
theorem Rule.everywhere {P : Expr → Prop} {e simpler : Expr} {type : Ty}
    (hrule : Rule type e.form simpler)
    (hconstant : ∀ value, literal value type = .ok simpler → P simpler) (h : e.Everywhere P) :
    simpler.Everywhere P := by
  rcases hrule.origin with ⟨value, hvalue⟩ | hpart | ⟨part, hpart, hdeeper⟩
  · refine .leaf (hconstant value hvalue) ?_
    rw [literal_eq_ok hvalue]
    rfl
  · exact h.part _ (Form.walked_subset_parts hpart)
  · have hbelow := h.part part (Form.walked_subset_parts hpart)
    exact hbelow.part _ (Form.walked_subset_parts hdeeper)

theorem Rule.built {e simpler : Expr} {type : Ty} (hrule : Rule type e.form simpler)
    (hbuilt : e.Built) : simpler.Built := by
  refine hrule.everywhere (fun value hconstant => ?_) hbuilt
  obtain rfl := literal_eq_ok hconstant
  exact ⟨type, hconstant⟩

/-- What has been borrowed has the type of the node that looks behind the reference. -/
theorem type_of_borrow {e operand target : Expr} {mutable : Bool} (hbuilt : e.Built)
    (hform : e.form = .deref operand) (hborrow : operand.form = .borrow target mutable) :
    target.type = e.type := by
  have he : e.form.rebuild e.type = .ok (ofForm e.type e.form) := by
    refine (isBuilt_iff ?_).mp hbuilt.here
    rw [hform]
    rfl
  have hoperand : operand.form.rebuild operand.type = .ok (ofForm operand.type operand.form) := by
    refine (isBuilt_iff ?_).mp (hbuilt.part operand (by simp [hform, Form.parts])).here
    rw [hborrow]
    rfl
  rw [hform] at he
  rw [hborrow] at hoperand
  -- the borrow has a reference type, and the node has the type behind it
  have hreference : operand.type = target.type.map (Ty.reference · mutable) :=
    congrArg Expr.type (borrow_eq_ok hoperand)
  obtain ⟨type, inner, found, htype, hkind, hnode⟩ := deref_eq_ok he
  have hinner : e.type = some inner := congrArg Expr.type hnode
  rw [hreference, Option.map_eq_some_iff] at htype
  obtain ⟨behind, hbehind, rfl⟩ := htype
  obtain ⟨rfl, -⟩ : behind = inner ∧ mutable = found := by
    simpa [Ty.reference, Ty.ofKind] using hkind
  rw [hbehind, hinner]

/-- **A rule keeps the type** of the node. -/
theorem Rule.type_eq {e simpler : Expr} {type : Ty} (hbuilt : e.Built)
    (htype : e.type = some type) (hrule : Rule type e.form simpler) : simpler.type = e.type := by
  generalize hform : e.form = form at hrule
  cases hrule with
  | negated _ hconstant => rw [literal_eq_ok hconstant, htype, ofForm]
  | decided _ hconstant => rw [literal_eq_ok hconstant, htype, ofForm]
  | borrowed hborrow => exact type_of_borrow hbuilt hform hborrow
  | component _ _ hty => rw [hty, htype]
  | second _ hty => rw [hty, htype]
  | first _ hty => rw [hty, htype]
  | uncast hty => rw [hty, htype]

/-! ### What the walk keeps of an expression -/

/-- **What every step keeps.** The second expression has the type of the first one, is built like
it, guards what it may leave out, and assigns nothing where the first one does not. -/
structure Shape (e e' : Expr) : Prop where
  type : e'.type = e.type
  built : e'.Built
  guarded : e'.Guarded
  assignFree : e.AssignFree → e'.AssignFree

theorem Shape.trans {e e' e'' : Expr} (h : e.Shape e') (h' : e'.Shape e'') : e.Shape e'' :=
  ⟨h'.type.trans h.type, h'.built, h'.guarded, fun hfree => h'.assignFree (h.assignFree hfree)⟩

theorem Rule.shape {e simpler : Expr} {type : Ty} (hbuilt : e.Built) (hguarded : e.Guarded)
    (htype : e.type = some type) (hrule : Rule type e.form simpler) : e.Shape simpler where
  type := hrule.type_eq hbuilt htype
  built := hrule.built hbuilt
  guarded := by
    refine hrule.everywhere (fun value hconstant part hpart => ?_) hguarded
    rw [literal_eq_ok hconstant] at hpart
    exact absurd hpart List.not_mem_nil
  assignFree := by
    refine hrule.everywhere fun value hconstant target value' hassign => ?_
    rw [literal_eq_ok hconstant] at hassign
    cases hassign

/-! ### The rules keep values -/

theorem gives_of_asBool? {e : Expr} {b : Bool} (h : e.asBool? = some b) {s s' : Scopes}
    {value : Value} : e.eval.Gives s value s' ↔ value = .bool b ∧ s' = s := by
  obtain ⟨tag, type, form⟩ := e
  obtain rfl : form = .literal (some (.bool b)) := by
    unfold asBool? at h
    split at h
    · rename_i hform
      obtain rfl := Option.some.inj h
      exact hform
    · cases h
  have hpure : Expr.eval ⟨tag, type, .literal (some (.bool b))⟩ = pure (.bool b) := rfl
  rw [hpure, ExceptT.gives_pure, eq_comm, eq_comm (a := s)]

theorem gives_literal {type : Ty} {b : Bool} {constant : Expr}
    (h : literal (some (.bool b)) type = .ok constant) (s : Scopes) :
    constant.eval.Gives s (.bool b) s := by
  obtain rfl := literal_eq_ok h
  exact (gives_of_asBool? rfl).mpr ⟨rfl, rfl⟩

/-- A tuple constructor whose components assign nothing gives the row of their values. -/
theorem gives_components {e : Expr} {fields : List Expr} (h : e.components? = some fields)
    (hkeeps : ∀ field ∈ fields, field.eval.Keeps) {s s' : Scopes} {value : Value}
    (hvalue : e.eval.Gives s value s') :
    s' = s ∧ ∃ values, value = .row values ∧
      List.Forall₂ (fun field v => field.eval.Gives s v s) fields values := by
  obtain ⟨tag, type, form⟩ := e
  have heval : Expr.eval ⟨tag, type, form⟩ = (do return .row (← evalAll fields)) := by
    rcases form_of_components? h with hform | hform
    · dsimp only at hform
      rw [hform, Expr.eval]
    · dsimp only at hform
      rw [hform, Expr.eval]
  rw [heval, ExceptT.gives_bind] at hvalue
  obtain ⟨values, t, hvalues, hvalue⟩ := hvalue
  obtain ⟨rfl, rfl⟩ := ExceptT.gives_pure.mp hvalue
  obtain ⟨hall, rfl⟩ := (gives_evalAll hkeeps).mp hvalues
  exact ⟨rfl, values, rfl, hall⟩

theorem decisive_eq_absorbing (op : LogicalOp) : op.decisive = op.absorbing := by
  cases op <;> rfl

/-- What a rule turns into something else denotes no place. -/
theorem Rule.place?_ne_ok {e simpler : Expr} {type : Ty} (hrule : Rule type e.form simpler)
    (target : String × List Nat) : e.place? ≠ .ok target := by
  intro htarget
  obtain ⟨tag, declared, form⟩ := e
  -- a tuple constructor and a borrow denote none, nor does what stands on one
  cases hrule with
  | @component base fields index _ hfields _ _ =>
    rw [place?, Except.bind_eq_ok] at htarget
    obtain ⟨outer, houter, -⟩ := htarget
    obtain ⟨tag, declared, form⟩ := base
    rcases form_of_components? hfields with hform | hform
    · dsimp only at hform
      rw [hform] at houter
      cases houter
    · dsimp only at hform
      rw [hform] at houter
      cases houter
  | @borrowed operand _ mutable hborrow =>
    rw [place?] at htarget
    obtain ⟨tag, declared, form⟩ := operand
    dsimp only at hborrow
    rw [hborrow] at htarget
    cases htarget
  | _ => cases htarget

/-- **A rule keeps values.** What a rule turns a node into stands for the node, unless the node is a
cast. -/
theorem Rule.refines {e simpler : Expr} {type : Ty} (hguarded : e.Guarded)
    (hrule : Rule type e.form simpler) (hcast : ∀ operand, e.form ≠ .cast operand) :
    e.Refines simpler := by
  refine ⟨fun s value s' hvalue => ?_, fun target htarget => ?_⟩
  swap
  · exact absurd htarget (hrule.place?_ne_ok target)
  obtain ⟨tag, declared, form⟩ := e
  cases hrule with
  | @component base fields index _ hfields hcomponent _ =>
    obtain ⟨row, hrow, hfield⟩ := gives_field.mp hvalue
    -- the components assign nothing, so the others may go
    have hbase : base ∈ (Form.field base index).parts := by simp [Form.parts]
    have hkeeps : ∀ field ∈ fields, field.eval.Keeps := by
      intro field hmem
      obtain ⟨i, hi⟩ := List.mem_iff_getElem?.mp hmem
      have hdroppable := (mem_of_components? hfields hi).2
      exact ((hguarded.part base hbase).here field hdroppable).keeps_eval
    obtain ⟨rfl, values, rfl, hvalues⟩ := gives_components hfields hkeeps hrow
    rcases hvalues.getElem? index with ⟨hnone, -⟩ | ⟨field, v, hi, hv, hgives⟩
    · cases hcomponent.symm.trans hnone
    · obtain rfl : simpler = field := Option.some.inj (hcomponent.symm.trans hi)
      simp only [Value.field, hv] at hfield
      obtain rfl := Except.ok.inj hfield
      exact hgives
  | @negated operand b _ hoperand hconstant =>
    obtain ⟨v, hv, hnot⟩ := gives_unary.mp hvalue
    obtain ⟨rfl, rfl⟩ := (gives_of_asBool? hoperand).mp hv
    obtain rfl : Value.bool (!b) = value := Except.ok.inj hnot
    exact gives_literal hconstant _
  | @decided op left right _ hdecided hconstant =>
    obtain ⟨l, t, r, hl, hr, hlogical⟩ := gives_binary.mp hvalue
    have hfree := hguarded.here
    -- the other operand assigns nothing, so it may go
    have ht : t = s := (hfree left (by simp [Form.droppable])).keeps_eval.eq_of_gives hl
    have hs' : s' = t := (hfree right (by simp [Form.droppable])).keeps_eval.eq_of_gives hr
    rw [← decisive_eq_absorbing] at hdecided hconstant
    have hvalue : value = .bool op.decisive := by
      refine Value.logical_decided (hdecided.imp (fun hleft => ?_) fun hright => ?_) hlogical
      · exact ((gives_of_asBool? hleft).mp hl).1
      · exact ((gives_of_asBool? hright).mp hr).1
    rw [hs', ht, hvalue]
    exact gives_literal hconstant s
  | second hneutral _ =>
    obtain ⟨l, t, r, hl, hr, hlogical⟩ := gives_binary.mp hvalue
    obtain ⟨rfl, rfl⟩ := (gives_of_asBool? hneutral).mp hl
    rw [← decisive_eq_absorbing] at hlogical
    rw [Value.logical_neutral (.inl hlogical)]
    exact hr
  | first hneutral _ =>
    obtain ⟨l, t, r, hl, hr, hlogical⟩ := gives_binary.mp hvalue
    obtain ⟨rfl, rfl⟩ := (gives_of_asBool? hneutral).mp hr
    rw [← decisive_eq_absorbing] at hlogical
    rw [Value.logical_neutral (.inr hlogical)]
    exact hl
  | @borrowed operand _ mutable hborrow =>
    have hoperand : (Expr.eval ⟨tag, declared, .deref operand⟩) = simpler.eval := by
      obtain ⟨tag, declared, form⟩ := operand
      dsimp only at hborrow
      rw [Expr.eval, hborrow, Expr.eval]
    rw [← hoperand]
    exact hvalue
  | uncast _ => exact absurd rfl (hcast _)

/-! ### The walk -/

end Expr

theorem Form.Lift.mem_droppable {R : Expr → Expr → Prop} {form form' : Form}
    (h : form.Lift R form') {e' : Expr} (he' : e' ∈ form'.droppable) :
    ∃ e ∈ form.droppable, R e e' := by
  cases h with
  | @binary op left _ right _ hleft hright =>
    cases op with
    | logical op =>
      have hoperands : List.Forall₂ R [left, right] _ := .cons hleft (.cons hright .nil)
      exact hoperands.exists_of_mem_right he'
    | _ => exact absurd he' List.not_mem_nil
  | tuple hfields | rawTuple hfields => exact hfields.exists_of_mem_right he'
  | _ => exact absurd he' List.not_mem_nil

/-- A walk that only relates parts keeps what holds everywhere. -/
theorem Form.Lift.everywhere {R : Expr → Expr → Prop} {P : Expr → Prop} {form form' : Form}
    (h : form.Lift R form') (hold : ∀ part ∈ form.parts, part.Everywhere P)
    (hnew : ∀ part ∈ form.parts, ∀ part', R part part' → part'.Everywhere P) :
    ∀ part' ∈ form'.parts, part'.Everywhere P := by
  intro part' hpart'
  rcases h.mem_parts hpart' with hmem | ⟨part, hpart, hR⟩
  · exact hold part' hmem
  · exact hnew part hpart part' hR

namespace Expr

/-- A node with new parts of the shape of the old ones has the shape of the old node. -/
theorem Shape.of_lift {e e' : Expr} {form : Form} (hbuilt : e.Built) (hguarded : e.Guarded)
    (hlift : e.form.Lift Shape form) (h : e.withForm form = .ok e') :
    e.Shape e' ∧ e'.form = form := by
  have htypes := hlift.imp_of_mem fun part _ part' hshape => hshape.type
  obtain ⟨hhere, htype, rfl⟩ := withForm_eq_ok hbuilt.here htypes h
  have hbuilt' : e'.Built :=
    .node hhere (hlift.everywhere hbuilt.part fun _ _ _ hshape => hshape.built)
  have hguarded' : e'.Guarded := by
    refine .node ?_ (hlift.everywhere hguarded.part fun _ _ _ hshape => hshape.guarded)
    intro part' hpart'
    obtain ⟨part, hpart, hshape⟩ := hlift.mem_droppable hpart'
    exact hshape.assignFree (hguarded.here part hpart)
  have hfree' : e.AssignFree → e'.AssignFree := by
    intro hfree
    refine .node ?_ (hlift.everywhere hfree.part fun part hpart _ hshape =>
      hshape.assignFree (hfree.part part hpart))
    intro target' value' hassign
    rw [hassign] at hlift
    generalize hform : e.form = old at hlift
    cases hlift with
    | assign => exact hfree.here _ _ hform
  exact ⟨⟨htype, hbuilt', hguarded', hfree'⟩, rfl⟩

/-- **A simplified expression.** It has the shape of the expression and stands for it. -/
structure Simplifies (e e' : Expr) : Prop extends Shape e e' where
  refines : e.Refines e'

/-- A cast to the type that the operand has already gives what the new operand gives. -/
theorem Refines.of_uncast {e operand' : Expr} {type : Ty} (hcasts : e.CastsKeep)
    (htype : e.type = some type) (hlift : e.form.Lift Simplifies (.cast operand'))
    (hoperand' : operand'.type = some type) : e.Refines operand' := by
  obtain ⟨tag, declared, form⟩ := e
  obtain rfl : declared = some type := htype
  dsimp only at hlift
  generalize hnew : Form.cast operand' = form' at hlift
  cases hlift with
  | @cast operand _ hsimplifies =>
    obtain rfl := Form.cast.inj hnew
    refine ⟨fun s value s' hvalue => ?_, fun target htarget => nomatch htarget⟩
    obtain ⟨v, hv, hconvert⟩ := gives_cast.mp hvalue
    -- the operand has its type from before the walk, so the condition is about this very cast
    have hoperand : operand.type = some type := by rw [← hsimplifies.type, hoperand']
    have hkeep := hcasts.here operand type rfl rfl hoperand s v s' hv
    obtain rfl : v = value := Except.ok.inj (hkeep.symm.trans hconvert)
    exact hsimplifies.refines.eval s v s' hv
  | _ => cases hnew

/-- **One step of the walk.** A node whose parts are simplified, and then the node itself. -/
theorem Simplifies.step {e e' rebuilt : Expr} {form : Form} (hbuilt : e.Built)
    (hguarded : e.Guarded) (hcasts : e.CastsKeep) (hlift : e.form.Lift Simplifies form)
    (hrebuilt : e.withForm form = .ok rebuilt) (hafter : simplifier.after e rebuilt = .ok e') :
    e.Simplifies e' := by
  have hshapes := hlift.imp_of_mem fun part _ part' h => h.toShape
  obtain ⟨hshape, rfl⟩ := Shape.of_lift hbuilt hguarded hshapes hrebuilt
  have hrefines : e.Refines rebuilt :=
    .of_lift hshape.type (hlift.imp_of_mem fun part _ part' h => h.refines)
  obtain ⟨simpler, hsimpler, hafter⟩ := Except.bind_eq_ok.mp hafter
  obtain rfl := Except.ok.inj hafter
  cases simpler with
  | none => exact ⟨hshape, hrefines⟩
  | some simpler =>
    obtain ⟨type, htype, hrule⟩ := simplerForm?_eq_ok hsimpler
    refine ⟨hshape.trans (hrule.shape hshape.built hshape.guarded htype), ?_⟩
    by_cases hcast : ∃ operand, rebuilt.form = .cast operand
    · -- only the old cast is known to keep values, so the new one is left out of the argument
      obtain ⟨operand, hform⟩ := hcast
      rw [hform] at hrule hlift
      have hold : e.type = some type := by rw [← hshape.type, htype]
      cases hrule with
      | uncast hoperand => exact .of_uncast hcasts hold hlift hoperand
    · have hother : ∀ operand, rebuilt.form ≠ .cast operand := fun operand hform =>
        hcast ⟨operand, hform⟩
      exact hrefines.trans (hrule.refines hshape.guarded hother)

/-- **Simplified.** Simplification gives an expression that stands for the one it is given. -/
theorem simplifies_of_simplify {e e' : Expr} (hbuilt : e.Built) (hguarded : e.Guarded)
    (hcasts : e.CastsKeep) (h : e.simplify = .ok e') : e.Simplifies e' := by
  induction e using parts_induction generalizing e' with
  | node e ih =>
    rcases transform_eq_ok.mp h with hbefore | ⟨-, form, rebuilt, hparts, hrebuilt, hafter⟩
    · cases hbefore
    have hlift := (Form.lift_of_transformParts hparts).imp_of_mem fun part hpart part' hsimplify =>
      ih part hpart (hbuilt.part part hpart) (hguarded.part part hpart) (hcasts.part part hpart)
        hsimplify
    exact .step hbuilt hguarded hcasts hlift hrebuilt hafter

/-- **Simplification keeps values.** Take an expression that the constructors give, in which no
operand of a logical operator and no component of a tuple assigns anything, and in which casts to
the type of their operand keep its values. Whenever it has a value, the simplified expression has
the same value and leaves the same variables. -/
theorem eval_simplify {e e' : Expr} (hbuilt : e.Built) (hguarded : e.Guarded)
    (hcasts : e.CastsKeep) (h : e.simplify = .ok e') {s s' : Scopes} {value : Value}
    (hvalue : e.eval s = (.ok value, s')) : e'.eval s = (.ok value, s') :=
  (simplifies_of_simplify hbuilt hguarded hcasts h).refines.eval s value s' hvalue

/-! ### An accumulator -/

/-- The block `{ let mut seen = false; seen = value; last }`. -/
def remember (value last : Expr) : Expr :=
  block [.binding "seen" (boolLiteral false) true,
    .eval (ofForm (some .unit) (.assign (var "seen" .bool) value))] (some last)

/-- The block `{ let mut seen = false; seen = true as bool; seen && true }`. -/
def accumulator : Expr :=
  remember (ofForm (some .bool) (.cast (boolLiteral true)))
    (ofForm (some .bool) (.binary (.logical .and) (var "seen" .bool) (boolLiteral true)))

/-- What holds of the nodes of the accumulator, one by one, holds everywhere in it. -/
theorem everywhere_accumulator {P : Expr → Prop} (hliteral : ∀ b, P (boolLiteral b))
    (hvar : P (var "seen" .bool)) (hcast : P (ofForm (some .bool) (.cast (boolLiteral true))))
    (hassign : P (ofForm (some .unit) (.assign (var "seen" .bool)
      (ofForm (some .bool) (.cast (boolLiteral true))))))
    (hand : P (ofForm (some .bool)
      (.binary (.logical .and) (var "seen" .bool) (boolLiteral true))))
    (hblock : P accumulator) : accumulator.Everywhere P := by
  have hliteral : ∀ b, (boolLiteral b).Everywhere P := fun b => .leaf (hliteral b) rfl
  have hvar := Everywhere.leaf hvar rfl
  have hassign := Everywhere.of_parts hassign ⟨hvar, .of_parts hcast (hliteral true)⟩
  have hand := Everywhere.of_parts hand ⟨hvar, hliteral true⟩
  exact .of_parts hblock ⟨hliteral false, hassign, hand⟩

theorem built_accumulator : accumulator.Built :=
  everywhere_accumulator (fun _ => ⟨.bool, rfl⟩) ⟨_, rfl⟩ rfl rfl rfl rfl

theorem guarded_accumulator : accumulator.Guarded := by
  refine everywhere_accumulator (fun _ => nofun) nofun nofun nofun ?_ nofun
  -- only the conjunction has parts that may be left out
  refine List.forall_iff_forall_mem.mp ⟨.leaf ?_ rfl, .leaf ?_ rfl⟩
  · exact fun _ _ => nofun
  · exact fun _ _ => nofun

theorem castsKeep_accumulator : accumulator.CastsKeep := by
  refine everywhere_accumulator (fun _ _ _ => nofun) (fun _ _ => nofun) ?_ (fun _ _ => nofun)
    (fun _ _ => nofun) (fun _ _ => nofun)
  intro operand type hform htype _ s value s' hvalue
  obtain rfl := Form.cast.inj hform
  obtain rfl := Option.some.inj htype
  obtain ⟨rfl, -⟩ := (gives_of_asBool? rfl).mp hvalue
  rfl

/-- The accumulator without its cast and its neutral constant still gives what it has seen. -/
theorem eval_simplify_accumulator :
    accumulator.simplify = .ok (remember (boolLiteral true) (var "seen" .bool)) ∧
      (remember (boolLiteral true) (var "seen" .bool)).eval [] = (.ok (.bool true), []) := by
  have hsimplify :
      accumulator.simplify = .ok (remember (boolLiteral true) (var "seen" .bool)) := rfl
  exact ⟨hsimplify, eval_simplify built_accumulator guarded_accumulator castsKeep_accumulator
    hsimplify rfl⟩

end Expr

end DeltaCircuit
