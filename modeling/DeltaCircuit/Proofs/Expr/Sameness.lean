import DeltaCircuit.Expr.Sameness
import DeltaCircuit.Proofs.Expr.Equality
import DeltaCircuit.Proofs.Outcome
import Mathlib.Logic.Relation

/-!
# Shallow sameness is an equivalence

Shallow sameness has a case for every pair of forms. Most of them compare the parts by identity and
everything else by equality of names, types and numbers, so that the forms they let through are one
form. What is left over are the four forms with something in them that is compared by equality of
expressions: a literal, the parameters of a closure, the patterns of a match, a Z-set literal. Told
in this way, it takes five cases to put two comparisons together.

* `Pattern.equal_equivalence`, `ZSetLiteral.equal_equivalence`, … — the comparisons inside a form.
* `Form.Agrees`, `Form.shallowSame_iff` — the forms that agree in one level.
* `Expr.shallowSame_equivalence` — shallow sameness is an equivalence.
* `Expr.equal_of_shallowSame` — shallow-same expressions are equal.
* `Expr.shallowSame_of_isLoop` — a loop is shallow-same to itself only.
-/

namespace DeltaCircuit

/-! ### What a form compares by equality -/

theorem sameLiteral_equivalence : Equivalence fun a b => sameLiteral a b = true := by
  simpa only [sameLiteral_iff] using eq_equivalence.comap (Option.map Literal.canonical)

theorem Pattern.equal_equivalence : Equivalence fun p q : Pattern => p.equal q = true := by
  obtain ⟨code, hcode⟩ := Expr.exists_code
  have hequal (p q : Pattern) : p.equal q = true ↔ p.encode code = q.encode code :=
    Pattern.equal_iff hcode (fun _ _ => trivial) fun _ _ => trivial
  simpa only [hequal] using eq_equivalence.comap (Pattern.encode code)

theorem Parameter.equalAll_equivalence :
    Equivalence fun ps qs : List Parameter => Parameter.equalAll ps qs = true := by
  obtain ⟨code, hcode⟩ := Expr.exists_code
  have hequal (ps qs : List Parameter) :
      Parameter.equalAll ps qs = true ↔ ps.map (encode code) = qs.map (encode code) :=
    Parameter.equalAll_iff hcode (fun _ _ => trivial) fun _ _ => trivial
  simpa only [hequal] using eq_equivalence.comap (List.map (encode code))

theorem ZSetLiteral.equal_equivalence : Equivalence fun y z : ZSetLiteral => y.equal z = true where
  refl z := ZSetLiteral.equal_iff.mpr ⟨rfl, fun _ => rfl⟩
  symm h := by
    obtain ⟨htype, hweights⟩ := ZSetLiteral.equal_iff.mp h
    exact ZSetLiteral.equal_iff.mpr ⟨htype.symm, fun e => (hweights e).symm⟩
  trans h h' := by
    obtain ⟨htype, hweights⟩ := ZSetLiteral.equal_iff.mp h
    obtain ⟨htype', hweights'⟩ := ZSetLiteral.equal_iff.mp h'
    exact ZSetLiteral.equal_iff.mpr
      ⟨htype.trans htype', fun e => (hweights e).trans (hweights' e)⟩

theorem Form.equal_self (f : Form) : f.equal f = true := by
  have hnode := Expr.equal_equivalence.refl (Expr.ofForm none f)
  simpa [Expr.ofForm, Expr.equal] using hnode

/-! ### Items one by one -/

section

variable {α : Type} {same : α → α → Bool}

theorem sameItems_iff {as bs : List α} :
    sameItems same as bs = true ↔ List.Forall₂ (fun a b => same a b = true) as bs := by
  induction as generalizing bs with
  | nil => cases bs <;> simp [sameItems]
  | cons a as ih => cases bs <;> simp [sameItems, ih]

/-- Lists are compared by an equivalence if their items are. -/
theorem sameItems_equivalence (h : Equivalence fun a b => same a b = true) :
    Equivalence fun as bs => sameItems same as bs = true where
  refl as := sameItems_iff.mpr (List.forall₂_same.mpr fun a _ => h.refl a)
  symm hab := by
    rw [sameItems_iff] at hab ⊢
    exact List.Forall₂.flip (hab.imp fun _ _ => h.symm)
  trans hab hbc := by
    rw [sameItems_iff] at hab hbc ⊢
    refine (List.forall₂_comp.mpr ⟨_, hab, hbc⟩).imp ?_
    rintro a c ⟨b, hab, hbc⟩
    exact h.trans hab hbc

end

/-- Statements are the same if they are one statement of the same nodes. -/
theorem Statement.same_iff {s t : Statement} : s.same t = true ↔ s = t := by
  cases s <;> cases t <;> simp [same, Expr.sameOptional, Expr.sameNode, and_assoc]

theorem Statement.allSame_iff {ss ts : List Statement} :
    sameItems Statement.same ss ts = true ↔ ss = ts := by
  simp only [sameItems_iff, Statement.same_iff, List.forall₂_eq_eq_eq]

theorem Arm.same_iff {a b : Arm} :
    a.same b = true ↔ a.pattern.equal b.pattern = true ∧ a.result = b.result := by
  simp [same, Expr.sameNode]

theorem Arm.same_equivalence : Equivalence fun a b : Arm => a.same b = true where
  refl a := Arm.same_iff.mpr ⟨Pattern.equal_equivalence.refl _, rfl⟩
  symm h := by
    obtain ⟨hpattern, hresult⟩ := Arm.same_iff.mp h
    exact Arm.same_iff.mpr ⟨Pattern.equal_equivalence.symm hpattern, hresult.symm⟩
  trans h h' := by
    obtain ⟨hpattern, hresult⟩ := Arm.same_iff.mp h
    obtain ⟨hpattern', hresult'⟩ := Arm.same_iff.mp h'
    exact Arm.same_iff.mpr
      ⟨Pattern.equal_equivalence.trans hpattern hpattern', hresult.trans hresult'⟩

theorem Arm.equalAll_of_same {as bs : List Arm} (h : sameItems Arm.same as bs = true) :
    Arm.equalAll as bs = true := by
  rw [sameItems_iff] at h
  induction h with
  | nil => rfl
  | @cons a b as bs hab _ ih =>
    obtain ⟨pattern, result⟩ := a
    obtain ⟨pattern', result'⟩ := b
    obtain ⟨hpattern, rfl⟩ : pattern.equal pattern' = true ∧ result = result' := same_iff.mp hab
    have hresult : result.equal result = true := Expr.equal_equivalence.refl result
    simp [Arm.equalAll, hpattern, hresult, ih]

/-! ### One level of two forms -/

/-- Whether a form is that of a loop. -/
def Form.isLoop : Form → Bool
  | .forLoop _ _ _ => true
  | _ => false

/-- **Forms that agree in one level.** Either they are one form of the same nodes, and no loop, or
they differ in a part that is compared by equality, and are equal there. -/
inductive Form.Agrees : Form → Form → Prop where
  | same {f : Form} : f.isLoop = false → Agrees f f
  | literal {value value' : Option Literal} : sameLiteral value value' = true →
    Agrees (.literal value) (.literal value')
  | closure {params params' : List Parameter} {body : Expr} :
    Parameter.equalAll params params' = true →
    Agrees (.closure params body) (.closure params' body)
  | matchOn {subject : Expr} {arms arms' : List Arm} : sameItems Arm.same arms arms' = true →
    Agrees (.matchOn subject arms) (.matchOn subject arms')
  | zset {y z : ZSetLiteral} : y.equal z = true → Agrees (.zset y) (.zset z)

namespace Form

variable {f g k : Form}

theorem Agrees.of_eq (hloop : f.isLoop = false) (h : f = g) : f.Agrees g := h ▸ .same hloop

theorem Agrees.isLoop_eq_false (h : f.Agrees g) : f.isLoop = false := by
  cases h with
  | same hloop => exact hloop
  | literal | closure | matchOn | zset => rfl

theorem agrees_of_shallowSame (h : f.shallowSame g = true) : f.Agrees g := by
  fun_cases Form.shallowSame f g with
  -- the four forms in which something is compared by equality
  | case1 value value' => exact .literal h
  | case8 params body params' body' =>
    obtain ⟨hparams, rfl⟩ : Parameter.equalAll params params' = true ∧ body = body' := by
      simpa [shallowSame, Expr.sameNode] using h
    exact .closure hparams
  | case11 subject arms subject' arms' =>
    obtain ⟨rfl, harms⟩ : subject = subject' ∧ sameItems Arm.same arms arms' = true := by
      simpa [shallowSame, Expr.sameNode] using h
    exact .matchOn harms
  | case20 y z => exact .zset h
  -- two forms of different kinds, or two loops
  | case21 => simp [shallowSame] at h
  -- in all others the parts are the same nodes
  | _ =>
    refine .of_eq rfl ?_
    simp_all [shallowSame, Expr.sameNode, Expr.sameNodes, Expr.sameOptional, Statement.allSame_iff]

theorem shallowSame_self (hloop : f.isLoop = false) : f.shallowSame f = true := by
  cases f with
  | forLoop pattern iterated body => simp [isLoop] at hloop
  | literal value => exact sameLiteral_equivalence.refl value
  | zset z => exact ZSetLiteral.equal_equivalence.refl z
  | closure params body =>
    have hparams : Parameter.equalAll params params = true :=
      Parameter.equalAll_equivalence.refl params
    simp [shallowSame, Expr.sameNode, hparams]
  | matchOn subject arms =>
    have harms : sameItems Arm.same arms arms = true :=
      (sameItems_equivalence Arm.same_equivalence).refl arms
    simp [shallowSame, Expr.sameNode, harms]
  | _ =>
    simp [shallowSame, Expr.sameNode, Expr.sameNodes, Expr.sameOptional, Statement.allSame_iff]

/-- **One level.** Two forms are shallow-same iff they agree in one level. -/
theorem shallowSame_iff : f.shallowSame g = true ↔ f.Agrees g := by
  refine ⟨agrees_of_shallowSame, fun h => ?_⟩
  cases h with
  | same hloop => exact shallowSame_self hloop
  | literal hvalue => exact hvalue
  | closure hparams => simp [shallowSame, Expr.sameNode, hparams]
  | matchOn harms => simp [shallowSame, Expr.sameNode, harms]
  | zset hz => exact hz

theorem Agrees.symm (h : f.Agrees g) : g.Agrees f := by
  cases h with
  | same hloop => exact .same hloop
  | literal hvalue => exact .literal (sameLiteral_equivalence.symm hvalue)
  | closure hparams => exact .closure (Parameter.equalAll_equivalence.symm hparams)
  | matchOn harms => exact .matchOn ((sameItems_equivalence Arm.same_equivalence).symm harms)
  | zset hz => exact .zset (ZSetLiteral.equal_equivalence.symm hz)

theorem Agrees.trans (h : f.Agrees g) (h' : g.Agrees k) : f.Agrees k := by
  cases h with
  | same => exact h'
  | literal hvalue =>
    cases h' with
    | same => exact .literal hvalue
    | literal hvalue' => exact .literal (sameLiteral_equivalence.trans hvalue hvalue')
  | closure hparams =>
    cases h' with
    | same => exact .closure hparams
    | closure hparams' => exact .closure (Parameter.equalAll_equivalence.trans hparams hparams')
  | matchOn harms =>
    cases h' with
    | same => exact .matchOn harms
    | matchOn harms' =>
      exact .matchOn ((sameItems_equivalence Arm.same_equivalence).trans harms harms')
  | zset hz =>
    cases h' with
    | same => exact .zset hz
    | zset hz' => exact .zset (ZSetLiteral.equal_equivalence.trans hz hz')

/-- Forms that agree in one level are equal in all of them. -/
theorem Agrees.equal (h : f.Agrees g) : f.equal g = true := by
  cases h with
  | same => exact equal_self f
  | literal hvalue => exact hvalue
  | @closure params params' body hparams =>
    have hbody : body.equal body = true := Expr.equal_equivalence.refl body
    simp [Form.equal, hparams, hbody]
  | @matchOn subject arms arms' harms =>
    have hsubject : subject.equal subject = true := Expr.equal_equivalence.refl subject
    simp [Form.equal, hsubject, Arm.equalAll_of_same harms]
  | zset hz => exact hz

end Form

/-! ### Expressions -/

namespace Expr

/-- Whether an expression is a loop. -/
def isLoop (e : Expr) : Bool := e.form.isLoop

theorem shallowSame_iff {a b : Expr} :
    a.shallowSame b = true ↔ a = b ∨ (a.type = b.type ∧ a.form.Agrees b.form) := by
  simp [shallowSame, sameNode, Form.shallowSame_iff]

/-- **An equivalence.** Every expression is shallow-same to itself, and the comparison is symmetric
and transitive. -/
theorem shallowSame_equivalence : Equivalence fun a b : Expr => a.shallowSame b = true where
  refl _ := shallowSame_iff.mpr (.inl rfl)
  symm h := by
    rcases shallowSame_iff.mp h with rfl | ⟨htype, hform⟩
    · exact h
    · exact shallowSame_iff.mpr (.inr ⟨htype.symm, hform.symm⟩)
  trans h h' := by
    rcases shallowSame_iff.mp h with rfl | ⟨htype, hform⟩
    · exact h'
    rcases shallowSame_iff.mp h' with rfl | ⟨htype', hform'⟩
    · exact h
    exact shallowSame_iff.mpr (.inr ⟨htype.trans htype', hform.trans hform'⟩)

/-- The very same node is shallow-same. -/
theorem shallowSame_of_sameNode {a b : Expr} (h : a.sameNode b = true) :
    a.shallowSame b = true := by
  simp [shallowSame, h]

/-- **Shallow sameness and equality.** What agrees in one level, with the same nodes below, is
equal. -/
theorem equal_of_shallowSame {a b : Expr} (h : a.shallowSame b = true) : a.equal b = true := by
  rcases shallowSame_iff.mp h with rfl | ⟨htype, hform⟩
  · exact equal_equivalence.refl a
  · obtain ⟨tag, type, form⟩ := a
    obtain ⟨tag', type', form'⟩ := b
    obtain rfl : type = type' := htype
    have hforms : form.equal form' = true := hform.equal
    simp [Expr.equal, hforms]

/-- **Loops.** A loop is shallow-same to itself only. -/
theorem shallowSame_of_isLoop {a b : Expr} (h : a.isLoop = true) :
    a.shallowSame b = a.sameNode b := by
  rw [Bool.eq_iff_iff]
  refine ⟨fun hsame => ?_, shallowSame_of_sameNode⟩
  rcases shallowSame_iff.mp hsame with rfl | ⟨-, hform⟩
  · simp [sameNode]
  · have hno : a.isLoop = false := hform.isLoop_eq_false
    rw [h] at hno
    cases hno

end Expr

end DeltaCircuit
