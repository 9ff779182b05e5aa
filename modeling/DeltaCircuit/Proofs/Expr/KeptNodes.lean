import DeltaCircuit.Proofs.Expr.KeptTypes
import DeltaCircuit.Proofs.Expr.Sameness

/-!
# Shallow sameness in transformations

A transformer that comes to a node which agrees with the old one in one level may leave the old
node in its place. The parts of the tree above are then built from other nodes, and some of them
are not built again at all, because all their parts are kept. What makes this harmless is that
building a node asks for nothing that equality leaves open: parts that are equal have one type, and
they are blocks, variables or fields alike.

* `Form.Lift.equal` — equal parts make equal forms.
* `Expr.follows_withForm` — nodes built again from equal parts are equal.
* `Expr.inStep_transform` — two walks whose hooks give equal expressions give equal expressions.
* `Transformer.KeepsShallow` — hooks that exchange expressions for shallow-same ones only.
* `Transformer.keepingSame` — the transformer that treats shallow-same expressions as unchanged.
* `Expr.shallowSame_between` — shallow sameness lies between identity and equality, and a
  transformation may rely on it.
-/

namespace DeltaCircuit

/-- Equality of what two expressions say, as a relation. -/
abbrev Expr.Equal (a b : Expr) : Prop := a.equal b = true

/-! ### Equal parts -/

theorem Expr.equalAll_of_forall₂ {as bs : List Expr} (h : List.Forall₂ Expr.Equal as bs) :
    Expr.equalAll as bs = true := by
  induction h with
  | nil => rfl
  | cons hab _ ih => simp [Expr.equalAll, hab, ih]

theorem Statement.equalAll_of_lift {ss ts : List Statement}
    (h : List.Forall₂ (Statement.Lift Expr.Equal) ss ts) : Statement.equalAll ss ts = true := by
  induction h with
  | nil => rfl
  | cons hfirst _ ih =>
    cases hfirst with
    | declare => simp [Statement.equalAll, ih]
    | letBind hinit => simp [Statement.equalAll, hinit, ih]
    | eval he => simp [Statement.equalAll, he, ih]

theorem Arm.equalAll_of_lift {as bs : List Arm} (h : List.Forall₂ (Arm.Lift Expr.Equal) as bs) :
    Arm.equalAll as bs = true := by
  induction h with
  | nil => rfl
  | cons hfirst _ ih =>
    cases hfirst with
    | @arm pattern result result' hresult =>
      have hpattern : pattern.equal pattern = true := Pattern.equal_equivalence.refl pattern
      simp [Arm.equalAll, hpattern, hresult, ih]

/-- **Equal parts.** Forms of one shape with equal parts are equal. -/
theorem Form.Lift.equal {form form' : Form} (h : form.Lift Expr.Equal form') :
    form.equal form' = true := by
  cases h with
  | literal | var | path | zset => exact equal_self _
  | field h | unary h | cast h | qualify h | borrow h | deref h => simp [Form.equal, h]
  | binary hl hr | assign hl hr | when hl hr => simp [Form.equal, hl, hr]
  | ifElse hc hp hn => simp [Form.equal, hc, hp, hn]
  | apply hf has => simp [Form.equal, hf, Expr.equalAll_of_forall₂ has]
  | tuple hs | rawTuple hs | struct hs => simp [Form.equal, Expr.equalAll_of_forall₂ hs]
  | steps hss => simp [Form.equal, Statement.equalAll_of_lift hss]
  | block hss hl => simp [Form.equal, Statement.equalAll_of_lift hss, hl]
  | matchOn hs harms => simp [Form.equal, hs, Arm.equalAll_of_lift harms]
  -- the patterns of parameters and loops are the same in both
  | @closure params _ _ hbody =>
    have hparams : Parameter.equalAll params params = true :=
      Parameter.equalAll_equivalence.refl params
    simp [Form.equal, hparams, hbody]
  | @forLoop pattern _ _ _ _ hi hb =>
    have hpattern : pattern.equal pattern = true := Pattern.equal_equivalence.refl pattern
    simp [Form.equal, hpattern, hi, hb]

namespace Expr

variable {a b : Expr}

theorem Equal.refl (a : Expr) : a.Equal a := equal_equivalence.refl a

theorem Equal.symm {a b : Expr} (h : a.Equal b) : b.Equal a := equal_equivalence.symm h

theorem Equal.trans {a b c : Expr} (h : a.Equal b) (h' : b.Equal c) : a.Equal c :=
  equal_equivalence.trans h h'

theorem equal_iff : a.Equal b ↔ a.type = b.type ∧ a.form.equal b.form = true := by
  obtain ⟨tag, type, form⟩ := a
  obtain ⟨tag', type', form'⟩ := b
  simp [Equal, Expr.equal]

theorem Equal.type (h : a.Equal b) : a.type = b.type := (equal_iff.mp h).1

/-- What is read off the kind of a form is the same for equal expressions. -/
theorem Equal.eq_of_encode {α : Type} {f : Expr → α}
    (hf : ∀ code e, f e = f (ofForm none (e.form.encode code))) (h : a.Equal b) : f a = f b := by
  obtain ⟨code, hcode⟩ := exists_code
  have hforms : a.form.encode code = b.form.encode code ∧ _ :=
    (Form.equal_iff hcode (fun _ _ => trivial) fun _ _ => trivial).mp (equal_iff.mp h).2
  rw [hf code a, hf code b, hforms.1]

theorem Equal.isBlock_eq (h : a.Equal b) : a.isBlock = b.isBlock := by
  refine h.eq_of_encode fun code e => ?_
  obtain ⟨tag, type, form⟩ := e
  cases form <;> rfl

theorem Equal.isAssignable_eq (h : a.Equal b) : a.isAssignable = b.isAssignable := by
  refine h.eq_of_encode fun code e => ?_
  obtain ⟨tag, type, form⟩ := e
  cases form <;> rfl

theorem Equal.isLoop_eq (h : a.Equal b) : a.isLoop = b.isLoop := by
  refine h.eq_of_encode fun code e => ?_
  obtain ⟨tag, type, form⟩ := e
  cases form <;> rfl

end Expr

/-! ### Nodes of equal parts -/

theorem Form.Lift.types_of_equal {form form' : Form} (h : form.Lift Expr.Equal form') :
    form.Lift (fun a b => b.type = a.type) form' :=
  h.imp_of_mem fun _ _ _ hpart => hpart.type.symm

/-- A form with equal parts is refused where the form is. -/
theorem Form.Lift.exists_spoiled {form form' : Form} {err : TermError}
    (h : form.Lift Expr.Equal form') (hspoiled : form'.Spoiled err) :
    ∃ err', form.Spoiled err' := by
  cases hspoiled with
  | target htarget =>
    cases h with
    | assign ht _ => exact ⟨_, .target (ht.isAssignable_eq.trans htarget)⟩
  | body hbody =>
    cases h with
    | forLoop _ hb => exact ⟨_, .body (hb.isBlock_eq.trans hbody)⟩

/-- **Equal nodes.** What can be built can be built from equal parts as well, and the two nodes are
equal. -/
theorem Form.Lift.follows_rebuild {form form' : Form} {type : Option Ty}
    (h : form.Lift Expr.Equal form') :
    (form.rebuild type).Follows Expr.Equal (form'.rebuild type) := by
  intro e he
  have hsound : ∀ err, ¬form'.Spoiled err := by
    intro err hspoiled
    obtain ⟨err', hspoiled'⟩ := h.exists_spoiled hspoiled
    rw [Form.rebuild_of_spoiled hspoiled'] at he
    cases he
  obtain ⟨e', he'⟩ := h.types_of_equal.exists_rebuild hsound he
  have htype := h.types_of_equal.type_eq he he'
  obtain ⟨_, rfl, -⟩ := Form.rebuild_eq_ok he
  obtain ⟨_, rfl, -⟩ := Form.rebuild_eq_ok he'
  exact ⟨_, he', Expr.equal_iff.mpr ⟨htype.symm, h.equal⟩⟩

namespace Expr

/-- A node is kept only where the same one would be built again, apart from its identity. -/
theorem withForm_cases {e : Expr} {form : Form} (hbuilt : e.IsBuilt)
    (hleaf : e.form.isLeaf = false) :
    e.withForm form = form.rebuild e.type ∨
      (e.withForm form = .ok e ∧ form.rebuild e.type = .ok (ofForm e.type e.form)) := by
  unfold withForm
  by_cases hsame : form.beq e.form = true
  · obtain rfl : form = e.form := (Form.beq_iff_eq _ _).mp hsame
    exact .inr ⟨if_pos hsame, (isBuilt_iff hleaf).mp hbuilt⟩
  · exact .inl (if_neg hsame)

/-- **The step of two walks.** From equal parts a node is made into equal nodes, whichever of the
two walks keeps it. -/
theorem follows_withForm {e : Expr} {form form' : Form} (hbuilt : e.IsBuilt)
    (hkept : e.form.isLeaf = true → form = e.form) (hlift : form.Lift Equal form') :
    (e.withForm form).Follows Equal (e.withForm form') := by
  intro x hx
  by_cases hleaf : e.form.isLeaf = true
  · obtain rfl := hkept hleaf
    rw [hlift.eq_of_isLeaf hleaf]
    exact ⟨x, hx, .refl x⟩
  rw [Bool.not_eq_true] at hleaf
  have hbare : e.Equal (ofForm e.type e.form) := equal_iff.mpr ⟨rfl, Form.equal_self e.form⟩
  -- both steps are compared with the building of a node
  obtain ⟨x', hx', hxx'⟩ : ∃ x', form.rebuild e.type = .ok x' ∧ x.Equal x' := by
    rcases withForm_cases hbuilt hleaf with hrebuilt | ⟨hsame, hagain⟩
    · exact ⟨x, hrebuilt.symm.trans hx, .refl x⟩
    · obtain rfl : e = x := Except.ok.inj (hsame.symm.trans hx)
      exact ⟨_, hagain, hbare⟩
  obtain ⟨y', hy', hxy'⟩ := hlift.follows_rebuild x' hx'
  have hxy := hxx'.trans hxy'
  rcases withForm_cases hbuilt hleaf with hrebuilt | ⟨hsame, hagain⟩
  · exact ⟨y', hrebuilt.trans hy', hxy⟩
  · obtain rfl := Except.ok.inj (hagain.symm.trans hy')
    exact ⟨e, hsame, hxy.trans hbare.symm⟩

end Expr

/-! ### Two walks -/

section

variable {σ : Type} {r r' : Transformer (StateT σ (Except TermError))} {e : Expr}

theorem Expr.inStep_transformAll {es : List Expr}
    (h : ∀ e ∈ es, StateT.InStep Expr.Equal (e.transform r) (e.transform r')) :
    StateT.InStep (List.Forall₂ Expr.Equal) (Expr.transformAll r es) (Expr.transformAll r' es) := by
  induction es with
  | nil => exact StateT.inStep_pure .nil
  | cons e es ih =>
    obtain ⟨he, hes⟩ := List.forall_mem_cons.mp h
    rw [Expr.transformAll, Expr.transformAll]
    exact he.bind fun a b hab => (ih hes).bind fun as bs habs => StateT.inStep_pure (.cons hab habs)

/-- A walk keeps the shape of a form. -/
theorem Form.shape_of_transformParts {form form' : Form} {s s' : σ}
    (h : form.transformParts r s = .ok (form', s')) : form.Lift (fun _ _ => True) form' := by
  have hparts : Assurance.anyState.Ensures (form.transformParts r) (form.Lift fun _ _ => True) :=
    ensures_transformParts Assurance.anyState fun _ _ _ _ _ _ => trivial
  exact hparts s form' s' h

theorem Form.transformAll_walked_run {form : Form} {parts : List Expr} {s s' : σ} :
    Expr.transformAll r form.walked s = .ok (parts, s') ↔
      ∃ form', form.transformParts r s = .ok (form', s') ∧ form'.walked = parts := by
  rw [transformAll_walked, StateT.map_eq_ok]

/-- Two walks that make equal expressions of the parts of a form make equal parts of it. -/
theorem Form.inStep_transformParts {form : Form}
    (h : ∀ e ∈ form.walked, StateT.InStep Expr.Equal (e.transform r) (e.transform r')) :
    StateT.InStep (fun left right => form.Lift (fun _ _ => True) left ∧ left.Lift Expr.Equal right)
      (form.transformParts r) (form.transformParts r') := by
  rintro s ⟨left, s'⟩ hleft
  obtain ⟨⟨parts, _⟩, hparts, hequal, rfl⟩ :=
    Expr.inStep_transformAll h s _ (transformAll_walked_run.mpr ⟨left, hleft, rfl⟩)
  obtain ⟨right, hright, rfl⟩ := transformAll_walked_run.mp hparts
  have hshape := shape_of_transformParts hleft
  have hlift := hshape.of_walked (shape_of_transformParts hright) hequal
  exact ⟨(right, _), hright, ⟨hshape, hlift⟩, rfl⟩

/-- **Two walks.** If the hooks of two transformers give equal expressions, and the second hooks do
so for equal nodes, the walks give equal expressions, in the states that they go through. -/
theorem Expr.inStep_transform
    (hbefore : ∀ e, StateT.InStep (Option.Rel Expr.Equal) (r.before e) (r'.before e))
    (hafter : ∀ old a b, a.Equal b → StateT.InStep Expr.Equal (r.after old a) (r'.after old b))
    (hbuilt : e.Built) : StateT.InStep Expr.Equal (e.transform r) (e.transform r') := by
  induction e using Expr.parts_induction with
  | node e ih =>
    have hparts : StateT.InStep _ (e.form.transformParts r) (e.form.transformParts r') :=
      Form.inStep_transformParts fun part hpart =>
        ih part (Form.walked_subset_parts hpart) (hbuilt.part part (Form.walked_subset_parts hpart))
    have hnode := hbuilt.here
    obtain ⟨tag, type, form⟩ := e
    rw [Expr.transform, Expr.transform]
    refine (hbefore _).bind fun replacement replacement' hreplacement => ?_
    cases hreplacement with
    | some hequal => exact StateT.inStep_pure hequal
    | none =>
      refine hparts.bind ?_
      rintro left right ⟨hshape, hlift⟩
      have hrebuilt := follows_withForm hnode hshape.eq_of_isLeaf hlift
      exact (StateT.inStep_liftM hrebuilt).bind fun a b hab => hafter _ a b hab

end

/-! ### Transformers that exchange nodes -/

/-- That a computation succeeds in every state, and what it gives. -/
def Assurance.always {σ : Type} : Assurance (StateT σ (Except TermError)) where
  Ensures x P := ∀ s, ∃ a s', x s = .ok (a, s') ∧ P a
  pure h s := ⟨_, s, rfl, h⟩
  bind hx hf s := by
    obtain ⟨a, s', ha, hP⟩ := hx s
    obtain ⟨b, s'', hb, hQ⟩ := hf a hP s'
    exact ⟨b, s'', StateT.bind_eq_ok.mpr ⟨a, s', ha, hb⟩, hQ⟩

/-- **Hooks that give shallow-same expressions.** Whatever the state is, they do not fail, and
replace an expression by a shallow-same one only. -/
structure Transformer.KeepsShallow {σ : Type} (r : Transformer (StateT σ (Except TermError))) :
    Prop where
  before : ∀ e s, ∃ replacement s', r.before e s = .ok (replacement, s') ∧
    ∀ e', replacement = some e' → e'.shallowSame e = true
  after : ∀ old rebuilt s, ∃ e' s', r.after old rebuilt s = .ok (e', s') ∧
    e'.shallowSame rebuilt = true

section

variable {σ : Type} {r : Transformer (StateT σ (Except TermError))} {e : Expr}

/-- A walk with such hooks gives an equal expression. -/
theorem Transformer.KeepsShallow.exists_transform (hr : r.KeepsShallow) (hbuilt : e.Built) :
    Assurance.always.Ensures (e.transform r) e.Equal := by
  induction e using Expr.parts_induction with
  | node e ih =>
    have hparts : Assurance.always.Ensures (e.form.transformParts r) (e.form.Lift Expr.Equal) :=
      Form.ensures_transformParts Assurance.always fun part hpart =>
        ih part (Form.walked_subset_parts hpart) (hbuilt.part part (Form.walked_subset_parts hpart))
    have hnode := hbuilt.here
    obtain ⟨tag, type, form⟩ := e
    rw [Expr.transform]
    refine Assurance.always.bind (hr.before _) fun replacement hreplacement => ?_
    cases replacement with
    | some e' =>
      exact Assurance.always.pure (.symm (Expr.equal_of_shallowSame (hreplacement e' rfl)))
    | none =>
      refine Assurance.always.bind hparts fun form' hlift => ?_
      -- with all its old parts the node would be kept
      have hkept : Expr.withForm ⟨tag, type, form⟩ form = .ok ⟨tag, type, form⟩ :=
        if_pos ((Form.beq_iff_eq _ _).mpr rfl)
      obtain ⟨e₁, he₁, hequal₁⟩ := Expr.follows_withForm hnode (fun _ => rfl) hlift _ hkept
      have hrebuilt : Assurance.always.Ensures
          (liftM (Expr.withForm ⟨tag, type, form⟩ form') : StateT σ (Except TermError) Expr)
          (Expr.Equal ⟨tag, type, form⟩) :=
        fun s => ⟨e₁, s, StateT.liftM_eq_ok.mpr ⟨he₁, rfl⟩, hequal₁⟩
      refine Assurance.always.bind hrebuilt fun rebuilt hrebuilt s => ?_
      obtain ⟨e', s', he', hsame⟩ := hr.after ⟨tag, type, form⟩ rebuilt s
      exact ⟨e', s', he', hrebuilt.trans (.symm (Expr.equal_of_shallowSame hsame))⟩

/-! ### Transformers that treat shallow-same expressions as unchanged -/

/-- The old expression if the new one is shallow-same, and otherwise the new one. -/
def Expr.keepIfSame (old new : Expr) : Expr := if new.shallowSame old then old else new

theorem Expr.keepIfSame_equal (old new : Expr) : (old.keepIfSame new).Equal new := by
  unfold keepIfSame
  split
  · next hsame => exact .symm (equal_of_shallowSame hsame)
  · exact .refl new

/-- A transformer whose answers are exchanged: what stands in place of an expression is chosen in view
of the expression and the answer. -/
def Transformer.adjust {m : Type → Type} [Monad m] (choose : Expr → Expr → Expr)
    (r : Transformer m) : Transformer m where
  before old := Option.map (choose old) <$> r.before old
  after old rebuilt := choose old <$> r.after old rebuilt

theorem Transformer.adjust_answer {m : Type → Type} [Monad m] [LawfulMonad m] (r : Transformer m) :
    r.adjust (fun _ answer => answer) = r := by
  simp [adjust]

/-- **Unchanged where shallow-same.** The transformer that takes an expression for unchanged where a
hook gives a shallow-same one. -/
def Transformer.keepingSame {m : Type → Type} [Monad m] (r : Transformer m) : Transformer m :=
  r.adjust Expr.keepIfSame

/-- **Hooks that respect equality.** The second hook gives equal expressions for equal nodes, and
changes the state alike. A hook that looks at identities could tell a node that was kept from one
that was built again. -/
def Transformer.RespectsEquality (r : Transformer (StateT σ (Except TermError))) : Prop :=
  ∀ old rebuilt rebuilt' : Expr, rebuilt.equal rebuilt' = true →
    StateT.InStep (fun a b => a.equal b = true) (r.after old rebuilt) (r.after old rebuilt')

/-- **Exchanged answers.** Answers exchanged for equal ones make no difference for the walk. -/
theorem Transformer.RespectsEquality.inStep_adjust (hr : r.RespectsEquality) (hbuilt : e.Built)
    {choose choose' : Expr → Expr → Expr} (hchoose : ∀ old answer, (choose old answer).Equal answer)
    (hchoose' : ∀ old answer, (choose' old answer).Equal answer) :
    StateT.InStep Expr.Equal (e.transform (r.adjust choose)) (e.transform (r.adjust choose')) := by
  have hequal {old a b : Expr} (hab : a.Equal b) : (choose old a).Equal (choose' old b) :=
    ((hchoose old a).trans hab).trans (hchoose' old b).symm
  refine Expr.inStep_transform (fun old => ?_) (fun old a b hab => ?_) hbuilt
  · refine (StateT.inStep_self (r.before old)).map _ _ ?_
    rintro (- | answer) _ rfl
    · exact .none
    · exact .some (hequal (.refl answer))
  · exact (hr old a b hab).map _ _ fun _ _ => hequal

end

/-- **Shallow sameness.** Two expressions are shallow-same if they are one node, or have one type and
agree in one level. This is an equivalence that lies between identity and equality, and two loops
are never shallow-same. So a transformation may rely on it: hooks that give shallow-same expressions
only leave an expression equal to what it was, and a transformer that respects equality gives equal
expressions, in the same states, whether or not it takes shallow-same expressions for unchanged. -/
theorem Expr.shallowSame_between :
    (∀ a b : Expr, a.shallowSame b = true ↔
      a.sameNode b = true ∨ (a.type = b.type ∧ a.form.Agrees b.form)) ∧
      (Equivalence fun a b : Expr => a.shallowSame b = true) ∧
      (∀ a b : Expr, a.sameNode b = true → a.shallowSame b = true) ∧
      (∀ a b : Expr, a.shallowSame b = true → a.equal b = true) ∧
      (∀ a b : Expr, a.isLoop = true → b.isLoop = true → a.sameNode b = false →
        a.shallowSame b = false) ∧
      ∀ (σ : Type) (r : Transformer (StateT σ (Except TermError))) (e : Expr), e.Built →
        (r.KeepsShallow → ∀ s, ∃ e' s', e.transform r s = .ok (e', s') ∧ e'.equal e = true) ∧
        (r.RespectsEquality →
          StateT.InStep (fun a b => a.equal b = true) (e.transform r) (e.transform r.keepingSame) ∧
          StateT.InStep (fun a b => a.equal b = true) (e.transform r.keepingSame)
            (e.transform r)) := by
  refine ⟨fun a b => ?_, shallowSame_equivalence, fun a b => shallowSame_of_sameNode,
    fun a b => equal_of_shallowSame, fun a b ha _ hab => ?_, fun σ r e hbuilt => ⟨?_, ?_⟩⟩
  · rw [shallowSame_iff, sameNode, decide_eq_true_iff]
  · rw [shallowSame_of_isLoop ha, hab]
  · intro hr s
    obtain ⟨e', s', he', hequal⟩ := hr.exists_transform hbuilt s
    exact ⟨e', s', he', hequal.symm⟩
  · intro hr
    have hown (old answer : Expr) : answer.Equal answer := .refl answer
    have hthere := hr.inStep_adjust hbuilt hown keepIfSame_equal
    have hback := hr.inStep_adjust hbuilt keepIfSame_equal hown
    rw [Transformer.adjust_answer] at hthere hback
    exact ⟨hthere, hback⟩

/-! ### Nodes with new numbers -/

/-- The hooks that give a number of its own to every node but loops. -/
def renumbering : Transformer (StateT Nat (Except TermError)) where
  before _ := pure none
  after _ rebuilt := fun number =>
    .ok (if rebuilt.isLoop then rebuilt else { rebuilt with tag := .rebuilt number }, number + 1)

theorem keepsShallow_renumbering : renumbering.KeepsShallow where
  before _ number := ⟨none, number, rfl, nofun⟩
  after _ rebuilt number := by
    refine ⟨_, _, rfl, ?_⟩
    split
    · exact Expr.shallowSame_equivalence.refl rebuilt
    · next hloop =>
      exact Expr.shallowSame_iff.mpr (.inr ⟨rfl, .same (Bool.eq_false_iff.mpr hloop)⟩)

theorem respectsEquality_renumbering : renumbering.RespectsEquality := by
  rintro old a b hab number _ ⟨⟩
  refine ⟨_, rfl, ?_, rfl⟩
  have hab : a.Equal b := hab
  dsimp only
  rw [← hab.isLoop_eq]
  split
  · exact hab
  · exact Expr.equal_iff.mpr ⟨hab.type, (Expr.equal_iff.mp hab).2⟩

namespace Expr

/-- A loop with an empty body, of a number. -/
def emptyLoop (number : Nat) : Expr :=
  ⟨.given number, some .unit,
    .forLoop .wildcard (var "items" (.vec .bool)) (block [] none)⟩

/-- With new numbers the sum is equal to what it was and not shallow-same, as its operands are other
nodes. Where shallow-same nodes are taken for unchanged, it stays the node that it is. Two loops of
different numbers are equal and not shallow-same. -/
theorem shallowSame_between_renumbered :
    (∃ copy kept, sumOfTwo.transform renumbering 0 = .ok (copy, 3) ∧
      sumOfTwo.transform renumbering.keepingSame 0 = .ok (kept, 3) ∧
      copy.equal sumOfTwo = true ∧ copy.equal kept = true ∧
      copy.shallowSame sumOfTwo = false ∧ kept.sameNode sumOfTwo = true) ∧
      (emptyLoop 1).equal (emptyLoop 2) = true ∧
      (emptyLoop 1).shallowSame (emptyLoop 2) = false := by
  have hbuilt : sumOfTwo.Built :=
    built_accumulateSum.part sumOfTwo (by simp [accumulateSum, ofForm, Form.parts])
  obtain ⟨-, -, -, -, hloops, hwalks⟩ := shallowSame_between
  obtain ⟨hsame, hkept⟩ := hwalks Nat renumbering sumOfTwo hbuilt
  obtain ⟨copy, _, hcopy, hequal⟩ := hsame keepsShallow_renumbering 0
  obtain ⟨⟨kept, _⟩, hrun, hcopyKept, rfl⟩ := (hkept respectsEquality_renumbering).1 0 _ hcopy
  -- both runs can be carried out
  cases hcopy
  cases hrun
  exact ⟨⟨_, _, rfl, rfl, hequal, hcopyKept, rfl, rfl⟩, rfl, hloops _ _ rfl rfl rfl⟩

end Expr

end DeltaCircuit
