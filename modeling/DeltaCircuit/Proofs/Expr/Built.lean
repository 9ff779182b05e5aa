import DeltaCircuit.Proofs.Expr.Transform
import DeltaCircuit.ZSetLiteral

/-!
# Expressions that the constructors give

The constructors of expressions check their parts, and most of them derive the type of the node.
What they give has a static type that a later pass may rely on, and this file says what survives
when the parts of a node are exchanged for parts of the same types.

* `Expr.IsBuilt`, `Expr.Built` — a node, and a whole expression, that the constructors give.
* `Form.rebuild_eq_ok` — what building a node again gives.
* `Form.Lift.type_eq` — parts of the same types make a node of the same type.
* `Expr.withForm_eq_ok` — the two for the step of a walk.
-/

namespace DeltaCircuit

namespace Expr

/-- A node that the constructor of its form gives from its parts, whatever its identity. -/
def IsBuilt (e : Expr) : Prop :=
  match e.form with
  | .literal value => ∃ type, literal value type = .ok (ofForm e.type e.form)
  | .var name => ∃ type, var name type = ofForm e.type e.form
  | .path segments => ∃ type, path segments type = ofForm e.type e.form
  | .zset z => zset z = ofForm e.type e.form
  | form => form.rebuild e.type = .ok (ofForm e.type e.form)

/-- **Built.** An expression that the constructors give, from its parts upwards. -/
def Built (e : Expr) : Prop := e.Everywhere IsBuilt

/-! ### What the constructors give -/

section

variable {e base operand left right function body condition positive subject : Expr}
  {iterated target value : Expr}

theorem requireType_eq_ok {type : Ty} : e.requireType = .ok type ↔ e.type = some type := by
  unfold requireType
  cases e.type <;> simp

theorem literal_eq_ok {value : Option Literal} {type : Ty} (h : literal value type = .ok e) :
    e = ofForm (some type) (.literal value) := by
  unfold literal at h
  split at h
  · split at h
    · exact (Except.ok.inj h).symm
    · simp at h
  · rw [Except.bind_eq_ok] at h
    obtain ⟨_, -, h⟩ := h
    exact (Except.ok.inj h).symm

theorem field_eq_ok {index : Nat} (h : field base index = .ok e) :
    ∃ type, e = ofForm type (.field base index) := by
  unfold field at h
  rw [Except.bind_eq_ok] at h
  obtain ⟨found, -, h⟩ := h
  dsimp only at h
  split at h
  · simp at h
  · split at h
    · simp at h
    · split at h
      · rw [Except.bind_eq_ok] at h
        obtain ⟨type, -, h⟩ := h
        exact ⟨some type, (Except.ok.inj h).symm⟩
      · exact ⟨_, (Except.ok.inj h).symm⟩

theorem binary_eq_ok {op : BinaryOp} {type : Ty} (h : binary op left right type = .ok e) :
    e = ofForm (some type) (.binary op left right) := by
  simp only [binary, Except.bind_eq_ok, Except.pure_eq_ok] at h
  obtain ⟨_, -, _, -, _, -, rfl⟩ := h
  rfl

theorem unary_eq_ok {op : UnaryOp} {type : Ty} (h : unary op operand type = .ok e) :
    e = ofForm (some type) (.unary op operand) := by
  simp only [unary, Except.bind_eq_ok, Except.pure_eq_ok] at h
  obtain ⟨_, -, rfl⟩ := h
  rfl

theorem cast_eq_ok {type : Ty} (h : cast operand type = .ok e) :
    e = ofForm (some type) (.cast operand) := by
  simp only [cast, Except.bind_eq_ok] at h
  obtain ⟨source, -, h⟩ := h
  split at h
  · exact (Except.ok.inj h).symm
  · simp at h

/-- A conversion is left out where the operand has the type already. -/
theorem castIfNeeded_eq_ok {type : Ty} (h : castIfNeeded operand type = .ok e) :
    ∃ source, operand.type = some source ∧
      ((source = type ∧ e = operand) ∨ cast operand type = .ok e) := by
  obtain ⟨source, hsource, h⟩ := Except.bind_eq_ok.mp h
  refine ⟨source, requireType_eq_ok.mp hsource, ?_⟩
  split at h
  · next hsame => exact .inl ⟨hsame, (Except.ok.inj h).symm⟩
  · exact .inr h

theorem apply_eq_ok {args : List Expr} {type : Ty} (h : apply function args type = .ok e) :
    e = ofForm (some type) (.apply function args) := by
  unfold apply at h
  rw [Except.bind_eq_ok] at h
  obtain ⟨found, -, h⟩ := h
  dsimp only at h
  split at h
  · split at h
    · simp at h
    · rw [Except.bind_eq_ok] at h
      obtain ⟨_, -, h⟩ := h
      split at h
      · split at h
        · simp at h
        · exact (Except.ok.inj h).symm
      · exact (Except.ok.inj h).symm
  · simp at h

theorem closure_eq_ok {params : List Parameter} (h : closure params body = .ok e) :
    e = ofForm (some (.function body.type (params.map parameterType))) (.closure params body) := by
  simp only [closure, Except.bind_eq_ok, Except.pure_eq_ok] at h
  obtain ⟨_, -, rfl⟩ := h
  rfl

theorem ifElse_eq_ok {negative : Option Expr} (h : ifElse condition positive negative = .ok e) :
    e = ofForm (if negative.isSome then positive.type else none)
      (.ifElse condition positive negative) := by
  simp only [ifElse, Except.bind_eq_ok] at h
  obtain ⟨_, -, h⟩ := h
  split at h
  · exact (Except.ok.inj h).symm
  · split at h
    · exact (Except.ok.inj h).symm
    · simp at h

theorem matchOn_eq_ok {arms : List Arm} {type : Ty} (h : matchOn subject arms type = .ok e) :
    e = ofForm (some type) (.matchOn subject arms) := by
  unfold matchOn at h
  split at h
  · simp at h
  · simp only [Except.bind_eq_ok, Except.pure_eq_ok] at h
    obtain ⟨_, -, _, -, rfl⟩ := h
    rfl

theorem forLoop_eq_ok {pattern : Pattern} (h : forLoop pattern iterated body = .ok e) :
    e = ofForm (some .unit) (.forLoop pattern iterated body) := by
  unfold forLoop at h
  split at h
  · simp at h
  · simp only [Except.bind_eq_ok] at h
    obtain ⟨type, -, h⟩ := h
    split at h
    · simp only [Except.bind_eq_ok, Except.pure_eq_ok] at h
      obtain ⟨_, -, rfl⟩ := h
      rfl
    · simp at h

theorem assign_eq_ok (h : assign target value = .ok e) :
    e = ofForm (some .unit) (.assign target value) := by
  unfold assign at h
  split at h
  · simp at h
  · simp only [Except.bind_eq_ok] at h
    obtain ⟨_, -, _, -, h⟩ := h
    split at h
    · exact (Except.ok.inj h).symm
    · simp at h

theorem tuple_eq_ok {fields : List Expr} (h : tuple fields = .ok e) :
    ∃ types, fieldTypes false fields = .ok types ∧
      e = ofForm (some (.tuple types)) (.tuple fields) := by
  simp only [tuple, Except.bind_eq_ok, Except.pure_eq_ok] at h
  obtain ⟨types, htypes, rfl⟩ := h
  exact ⟨types, htypes, rfl⟩

theorem rawTuple_eq_ok {fields : List Expr} (h : rawTuple fields = .ok e) :
    ∃ types, fieldTypes true fields = .ok types ∧
      e = ofForm (some (.rawTuple types)) (.rawTuple fields) := by
  simp only [rawTuple, Except.bind_eq_ok, Except.pure_eq_ok] at h
  obtain ⟨types, htypes, rfl⟩ := h
  exact ⟨types, htypes, rfl⟩

theorem struct_eq_ok {type : Ty} {fields : List Expr} (h : struct type fields = .ok e) :
    e = ofForm (some type) (.struct fields) := by
  unfold struct at h
  split at h
  · split at h
    · simp at h
    · simp only [Except.bind_eq_ok, Except.pure_eq_ok] at h
      obtain ⟨_, -, rfl⟩ := h
      rfl
  · simp at h

theorem qualify_eq_ok {types : List Ty} (h : qualify operand types = .ok e) :
    e = ofForm operand.type (.qualify operand types) := by
  simp only [qualify, Except.bind_eq_ok, Except.pure_eq_ok, requireType_eq_ok] at h
  obtain ⟨type, htype, rfl⟩ := h
  rw [htype]

theorem borrow_eq_ok {mutable : Bool} (h : borrow operand mutable = .ok e) :
    e = ofForm (operand.type.map (Ty.reference · mutable)) (.borrow operand mutable) := by
  simp only [borrow, Except.bind_eq_ok, Except.pure_eq_ok, requireType_eq_ok] at h
  obtain ⟨type, htype, rfl⟩ := h
  rw [htype]
  rfl

theorem deref_eq_ok (h : deref operand = .ok e) :
    ∃ type inner mutable, operand.type = some type ∧ type.kind = .reference inner mutable ∧
      e = ofForm (some inner) (.deref operand) := by
  simp only [deref, Except.bind_eq_ok, requireType_eq_ok] at h
  obtain ⟨type, htype, h⟩ := h
  split at h
  · rename_i inner mutable hkind
    exact ⟨type, inner, mutable, htype, hkind, (Except.ok.inj h).symm⟩
  · simp at h

end

end Expr

/-! ### Building a node again -/

theorem Form.typed_eq_ok {type : Option Ty} {form : Form} {e : Expr}
    {build : Ty → Except TermError Expr}
    (h : (do build (← (Expr.ofForm type form).requireType)) = .ok e) :
    ∃ declared, type = some declared ∧ build declared = .ok e := by
  rw [Except.bind_eq_ok] at h
  obtain ⟨declared, hdeclared, h⟩ := h
  exact ⟨declared, Expr.requireType_eq_ok.mp hdeclared, h⟩

/-- **Rebuilding.** A node that is built again has the form it is built from, and the constructor
gives it again from the type that it has. -/
theorem Form.rebuild_eq_ok {type : Option Ty} {form : Form} {e : Expr}
    (h : form.rebuild type = .ok e) :
    ∃ type', e = Expr.ofForm type' form ∧ form.rebuild type' = .ok (Expr.ofForm type' form) := by
  have again {type' : Option Ty} (he : e = Expr.ofForm type' form)
      (hsame : form.rebuild type' = form.rebuild type) :
      ∃ type', e = Expr.ofForm type' form ∧
        form.rebuild type' = .ok (Expr.ofForm type' form) :=
    ⟨type', he, by rw [hsame, h, he]⟩
  cases form with
  -- these take the type that the node has to have
  | literal value => exact again (Except.ok.inj h).symm rfl
  | var name => exact again (Except.ok.inj h).symm rfl
  | path segments => exact again (Except.ok.inj h).symm rfl
  | zset z => exact again (Except.ok.inj h).symm rfl
  | binary op left right =>
    obtain ⟨declared, rfl, hbuild⟩ := typed_eq_ok h
    exact again (Expr.binary_eq_ok hbuild) rfl
  | unary op operand =>
    obtain ⟨declared, rfl, hbuild⟩ := typed_eq_ok h
    exact again (Expr.unary_eq_ok hbuild) rfl
  | cast operand =>
    obtain ⟨declared, rfl, hbuild⟩ := typed_eq_ok h
    exact again (Expr.cast_eq_ok hbuild) rfl
  | apply function args =>
    obtain ⟨declared, rfl, hbuild⟩ := typed_eq_ok h
    exact again (Expr.apply_eq_ok hbuild) rfl
  | matchOn subject arms =>
    obtain ⟨declared, rfl, hbuild⟩ := typed_eq_ok h
    exact again (Expr.matchOn_eq_ok hbuild) rfl
  | struct fields =>
    obtain ⟨declared, rfl, hbuild⟩ := typed_eq_ok h
    exact again (Expr.struct_eq_ok hbuild) rfl
  -- the others derive it, whatever type the old node had
  | field base index =>
    obtain ⟨type', he⟩ := Expr.field_eq_ok h
    exact again he rfl
  | closure params body => exact again (Expr.closure_eq_ok h) rfl
  | block statements last => exact again (Except.ok.inj h).symm rfl
  | ifElse condition positive negative => exact again (Expr.ifElse_eq_ok h) rfl
  | forLoop pattern iterated body => exact again (Expr.forLoop_eq_ok h) rfl
  | assign target value => exact again (Expr.assign_eq_ok h) rfl
  | tuple fields =>
    obtain ⟨types, -, he⟩ := Expr.tuple_eq_ok h
    exact again he rfl
  | rawTuple fields =>
    obtain ⟨types, -, he⟩ := Expr.rawTuple_eq_ok h
    exact again he rfl
  | qualify operand types => exact again (Expr.qualify_eq_ok h) rfl
  | borrow operand mutable => exact again (Expr.borrow_eq_ok h) rfl
  | deref operand =>
    obtain ⟨_, inner, _, -, -, he⟩ := Expr.deref_eq_ok h
    exact again he rfl

/-! ### Types of exchanged parts -/

theorem Expr.field_type {base base' e e' : Expr} {index : Nat} (htype : base'.type = base.type)
    (h : Expr.field base index = .ok e) (h' : Expr.field base' index = .ok e') :
    e'.type = e.type := by
  unfold Expr.field at h h'
  rw [Except.bind_eq_ok] at h h'
  obtain ⟨found, hfound, h⟩ := h
  obtain ⟨found', hfound', h'⟩ := h'
  rw [Expr.requireType_eq_ok] at hfound hfound'
  -- the bases have one type, so both constructors look at the same fields
  obtain rfl : found = found' := Option.some.inj (by rw [← hfound, ← hfound', htype])
  dsimp only at h h'
  cases hfields : found.deref.tupleFields? with
  | none => simp [hfields] at h
  | some types =>
    rw [hfields] at h h'
    cases hindex : types[index]? with
    | none => simp [hindex] at h
    | some type =>
      simp only [hindex] at h h'
      -- a nullable tuple makes the field nullable
      split at h
      · rename_i hnullable
        rw [if_pos hnullable] at h'
        rw [Except.bind_eq_ok] at h h'
        obtain ⟨own, hown, h⟩ := h
        obtain ⟨own', hown', h'⟩ := h'
        obtain rfl : own = own' := Except.ok.inj (hown.symm.trans hown')
        rw [← Except.ok.inj h, ← Except.ok.inj h']
        rfl
      · rename_i hnullable
        rw [if_neg hnullable] at h'
        rw [← Except.ok.inj h, ← Except.ok.inj h']
        rfl

theorem fieldTypes_eq {raw : Bool} {fields fields' : List Expr}
    (h : List.Forall₂ (fun a b => b.type = a.type) fields fields') :
    fieldTypes raw fields' = fieldTypes raw fields := by
  induction h with
  | nil => rfl
  | cons htype _ ih =>
    unfold fieldTypes at ih ⊢
    rw [List.mapM_cons, List.mapM_cons, ih, htype]

/-- **Parts of the same types.** A node is built with the same type from parts of the same
types. -/
theorem Form.Lift.type_eq {form form' : Form} {type : Option Ty} {e e' : Expr}
    (hlift : form.Lift (fun a b => b.type = a.type) form') (h : form.rebuild type = .ok e)
    (h' : form'.rebuild type = .ok e') : e'.type = e.type := by
  cases hlift with
  -- the declared type
  | literal | var | path | zset => rw [← Except.ok.inj h, ← Except.ok.inj h']
  | binary =>
    obtain ⟨declared, rfl, hbuild⟩ := typed_eq_ok h
    rw [Expr.binary_eq_ok hbuild, Expr.binary_eq_ok h']
    rfl
  | unary =>
    obtain ⟨declared, rfl, hbuild⟩ := typed_eq_ok h
    rw [Expr.unary_eq_ok hbuild, Expr.unary_eq_ok h']
    rfl
  | cast =>
    obtain ⟨declared, rfl, hbuild⟩ := typed_eq_ok h
    rw [Expr.cast_eq_ok hbuild, Expr.cast_eq_ok h']
    rfl
  | apply =>
    obtain ⟨declared, rfl, hbuild⟩ := typed_eq_ok h
    rw [Expr.apply_eq_ok hbuild, Expr.apply_eq_ok h']
    rfl
  | matchOn =>
    obtain ⟨declared, rfl, hbuild⟩ := typed_eq_ok h
    rw [Expr.matchOn_eq_ok hbuild, Expr.matchOn_eq_ok h']
    rfl
  | struct =>
    obtain ⟨declared, rfl, hbuild⟩ := typed_eq_ok h
    rw [Expr.struct_eq_ok hbuild, Expr.struct_eq_ok h']
    rfl
  -- the type derived from the parts
  | field htype => exact Expr.field_type htype h h'
  | closure htype =>
    rw [Expr.closure_eq_ok h, Expr.closure_eq_ok h']
    simp only [Expr.ofForm, htype]
  | steps => rw [← Except.ok.inj h, ← Except.ok.inj h']; rfl
  | block _ htype =>
    rw [← Except.ok.inj h, ← Except.ok.inj h']
    exact htype
  | @when condition condition' positive positive' =>
    change Expr.ifElse condition positive none = .ok e at h
    change Expr.ifElse condition' positive' none = .ok e' at h'
    rw [Expr.ifElse_eq_ok h, Expr.ifElse_eq_ok h']
    rfl
  | @ifElse condition condition' positive positive' negative negative' _ htype _ =>
    change Expr.ifElse condition positive (some negative) = .ok e at h
    change Expr.ifElse condition' positive' (some negative') = .ok e' at h'
    rw [Expr.ifElse_eq_ok h, Expr.ifElse_eq_ok h']
    exact htype
  | forLoop =>
    rw [Expr.forLoop_eq_ok h, Expr.forLoop_eq_ok h']
    rfl
  | assign =>
    rw [Expr.assign_eq_ok h, Expr.assign_eq_ok h']
    rfl
  | tuple hfields =>
    obtain ⟨types, htypes, he⟩ := Expr.tuple_eq_ok h
    obtain ⟨types', htypes', he'⟩ := Expr.tuple_eq_ok h'
    rw [fieldTypes_eq hfields] at htypes'
    obtain rfl : types = types' := Except.ok.inj (htypes.symm.trans htypes')
    rw [he, he']
    rfl
  | rawTuple hfields =>
    obtain ⟨types, htypes, he⟩ := Expr.rawTuple_eq_ok h
    obtain ⟨types', htypes', he'⟩ := Expr.rawTuple_eq_ok h'
    rw [fieldTypes_eq hfields] at htypes'
    obtain rfl : types = types' := Except.ok.inj (htypes.symm.trans htypes')
    rw [he, he']
    rfl
  | qualify htype =>
    rw [Expr.qualify_eq_ok h, Expr.qualify_eq_ok h']
    exact htype
  | borrow htype =>
    rw [Expr.borrow_eq_ok h, Expr.borrow_eq_ok h']
    simp only [Expr.ofForm, htype]
  | deref htype =>
    obtain ⟨type, inner, mutable, hty, hkind, he⟩ := Expr.deref_eq_ok h
    obtain ⟨type', inner', mutable', hty', hkind', he'⟩ := Expr.deref_eq_ok h'
    obtain rfl : type = type' := Option.some.inj (by rw [← hty, ← hty', htype])
    cases hkind.symm.trans hkind'
    rw [he, he']
    rfl

/-! ### The step of a walk -/

/-- A node of these forms has no parts that a walk enters, and is never built again. -/
def Form.isLeaf : Form → Bool
  | .literal _ | .var _ | .path _ | .zset _ => true
  | _ => false

theorem Form.Lift.eq_of_isLeaf {R : Expr → Expr → Prop} {form form' : Form}
    (h : form.Lift R form') (hleaf : form.isLeaf = true) : form' = form := by
  cases h with
  | literal | var | path | zset => rfl
  | _ => exact absurd hleaf Bool.false_ne_true

theorem Form.Lift.isLeaf_eq {R : Expr → Expr → Prop} {form form' : Form}
    (h : form.Lift R form') : form'.isLeaf = form.isLeaf := by
  cases h <;> rfl

theorem Expr.isBuilt_iff {e : Expr} (hleaf : e.form.isLeaf = false) :
    e.IsBuilt ↔ e.form.rebuild e.type = .ok (Expr.ofForm e.type e.form) := by
  obtain ⟨tag, type, form⟩ := e
  cases form with
  | literal | var | path | zset => exact absurd hleaf.symm Bool.false_ne_true
  | _ => exact Iff.rfl

/-- The node of a walk has the form that the walk gives. -/
theorem Expr.form_of_withForm {e e' : Expr} {form : Form} (h : e.withForm form = .ok e') :
    e'.form = form := by
  unfold Expr.withForm at h
  split at h
  · next hsame =>
    rw [← Except.ok.inj h, (Form.beq_iff_eq _ _).mp hsame]
  · obtain ⟨type, rfl, -⟩ := Form.rebuild_eq_ok h
    rfl

/-- **The node of a walk.** The node that a walk makes from walked parts of the same types is one
that its constructor gives, with the form of the parts and the old type. -/
theorem Expr.withForm_eq_ok {e e' : Expr} {form : Form} (hbuilt : e.IsBuilt)
    (hlift : e.form.Lift (fun a b => b.type = a.type) form) (h : e.withForm form = .ok e') :
    e'.IsBuilt ∧ e'.type = e.type ∧ e'.form = form := by
  unfold Expr.withForm at h
  by_cases hsame : form.beq e.form = true
  · rw [if_pos hsame] at h
    obtain rfl : e = e' := Except.ok.inj h
    exact ⟨hbuilt, rfl, ((Form.beq_iff_eq _ _).mp hsame).symm⟩
  · rw [if_neg hsame] at h
    have hleaf : e.form.isLeaf = false := by
      rw [← Bool.not_eq_true]
      intro hleaf
      exact hsame ((Form.beq_iff_eq _ _).mpr (hlift.eq_of_isLeaf hleaf))
    obtain ⟨type, rfl, hagain⟩ := Form.rebuild_eq_ok h
    have htype := hlift.type_eq ((isBuilt_iff hleaf).mp hbuilt) h
    have hleaf' : form.isLeaf = false := by rw [hlift.isLeaf_eq, hleaf]
    exact ⟨(isBuilt_iff hleaf').mpr hagain, htype, rfl⟩

end DeltaCircuit
