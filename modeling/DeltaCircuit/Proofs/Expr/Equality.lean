import DeltaCircuit.Expr.Equality
import DeltaCircuit.Proofs.Expr.Parts
import Mathlib.Logic.Function.Basic

/-!
# Equality of expressions is an equivalence

Two expressions are compared node by node, except where Z-set literals stand in them: those are
compared as weight functions, whose arguments are expressions again. That the comparison is an
equivalence has to be shown for all kinds of nodes together, and by one argument for reflexivity,
symmetry and transitivity: equal expressions are those of the same code.

A code for small expressions is put in the place of the parts of a larger one. What comes out is
compared by identity, and serves as the next code.

* `Expr.Codes` — a code that tells apart what the comparison tells apart, among some expressions.
* `Form.equal_iff` — forms are equal if they are the same in codes of their parts.
* `Expr.exists_codes` — there is a code for the expressions up to any size.
* `Expr.equal_equivalence` — equality of expressions is an equivalence.
* `ZSetLiteral.equal_iff` — Z-set literals are equal iff they have one element type and one weight
  for every expression.
-/

namespace DeltaCircuit

/-! ### Expressions in codes of their parts -/

section Encoding

variable (code : Expr → Expr)

mutual

/-- A pattern with codes in the place of its constants. -/
def Pattern.encode : Pattern → Pattern
  | .identifier name mutable => .identifier name mutable
  | .wildcard => .wildcard
  | .tuple fields => .tuple (Pattern.encodeAll fields)
  | .literal value => .literal (code value)
termination_by structural x => x

def Pattern.encodeAll : List Pattern → List Pattern
  | [] => []
  | pattern :: patterns => pattern.encode :: Pattern.encodeAll patterns
termination_by structural x => x

end

def Statement.encode : Statement → Statement
  | .letBind name mutable type init => .letBind name mutable type (init.map code)
  | .eval e => .eval (code e)

def Arm.encode (arm : Arm) : Arm := ⟨arm.pattern.encode code, code arm.result⟩

def Parameter.encode (param : Parameter) : Parameter := ⟨param.pattern.encode code, param.type⟩

/-- A form with codes in the place of its parts. Of a Z-set literal only the element type stays. -/
def Form.encode : Form → Form
  | .literal value => .literal (value.map Literal.canonical)
  | .var name => .var name
  | .field base index => .field (code base) index
  | .binary op left right => .binary op (code left) (code right)
  | .unary op operand => .unary op (code operand)
  | .cast operand => .cast (code operand)
  | .apply function args => .apply (code function) (args.map code)
  | .closure params body => .closure (params.map (Parameter.encode code)) (code body)
  | .block statements last => .block (statements.map (Statement.encode code)) (last.map code)
  | .ifElse condition positive negative =>
    .ifElse (code condition) (code positive) (negative.map code)
  | .matchOn subject arms => .matchOn (code subject) (arms.map (Arm.encode code))
  | .forLoop pattern iterated body =>
    .forLoop (pattern.encode code) (code iterated) (code body)
  | .assign target value => .assign (code target) (code value)
  | .tuple fields => .tuple (fields.map code)
  | .rawTuple fields => .rawTuple (fields.map code)
  | .struct fields => .struct (fields.map code)
  | .path segments => .path segments
  | .qualify operand types => .qualify (code operand) types
  | .borrow operand mutable => .borrow (code operand) mutable
  | .deref operand => .deref (code operand)
  | .zset z => .zset ⟨z.elementType, []⟩

/-- The weight of the first entry whose element has a code. -/
def ZSetLiteral.weightOf? (entries : List (Expr × Int)) (c : Expr) : Option Int :=
  (entries.find? fun entry => code entry.1 = c).map Prod.snd

/-- The weights in a Z-set literal, by codes. -/
def Form.weights : Form → Expr → Option Int
  | .zset z => ZSetLiteral.weightOf? code z.entries
  | _ => fun _ => none

end Encoding

/-! ### Comparisons by codes -/

/-- Among the expressions with a property, the equal ones are those of the same code. -/
def Expr.Codes (code : Expr → Expr) (P : Expr → Prop) : Prop :=
  ∀ a b, P a → P b → (a.equal b = true ↔ code a = code b)

theorem sameLiteral_iff {a b : Option Literal} :
    sameLiteral a b = true ↔ a.map Literal.canonical = b.map Literal.canonical := by
  cases a <;> cases b <;> simp [sameLiteral, Literal.same]

section Comparisons

variable {code : Expr → Expr} {P : Expr → Prop}

theorem Expr.equalAll_iff (h : Expr.Codes code P) : ∀ {as bs : List Expr},
    (∀ a ∈ as, P a) → (∀ b ∈ bs, P b) →
      (Expr.equalAll as bs = true ↔ as.map code = bs.map code)
  | [], [], _, _ => by simp [Expr.equalAll]
  | [], _ :: _, _, _ => by simp [Expr.equalAll]
  | _ :: _, [], _, _ => by simp [Expr.equalAll]
  | a :: as, b :: bs, has, hbs => by
    obtain ⟨ha, has⟩ := List.forall_mem_cons.mp has
    obtain ⟨hb, hbs⟩ := List.forall_mem_cons.mp hbs
    simp [Expr.equalAll, h a b ha hb, Expr.equalAll_iff h has hbs]

mutual

theorem Pattern.equal_iff (h : Expr.Codes code P) : ∀ {p q : Pattern}, (∀ e ∈ p.constants, P e) →
    (∀ e ∈ q.constants, P e) → (p.equal q = true ↔ p.encode code = q.encode code)
  | .identifier _ _, q, _, _ => by cases q <;> simp [Pattern.equal, Pattern.encode]
  | .wildcard, q, _, _ => by cases q <;> simp [Pattern.equal, Pattern.encode]
  | .tuple ps, q, hp, hq => by
    cases q with
    | tuple qs => simp [Pattern.equal, Pattern.encode, Pattern.equalAll_iff h hp hq]
    | _ => simp [Pattern.equal, Pattern.encode]
  | .literal a, q, hp, hq => by
    cases q with
    | literal b =>
      have hab := h a b (hp a (by simp [constants])) (hq b (by simp [constants]))
      simp [Pattern.equal, Pattern.encode, hab]
    | _ => simp [Pattern.equal, Pattern.encode]

theorem Pattern.equalAll_iff (h : Expr.Codes code P) : ∀ {ps qs : List Pattern},
    (∀ e ∈ Pattern.constantsAll ps, P e) → (∀ e ∈ Pattern.constantsAll qs, P e) →
      (Pattern.equalAll ps qs = true ↔ Pattern.encodeAll code ps = Pattern.encodeAll code qs)
  | [], qs, _, _ => by cases qs <;> simp [Pattern.equalAll, Pattern.encodeAll]
  | p :: ps, [], _, _ => by simp [Pattern.equalAll, Pattern.encodeAll]
  | p :: ps, q :: qs, hp, hq => by
    obtain ⟨hp, hps⟩ := List.forall_mem_append.mp hp
    obtain ⟨hq, hqs⟩ := List.forall_mem_append.mp hq
    simp [Pattern.equalAll, Pattern.encodeAll, Pattern.equal_iff h hp hq,
      Pattern.equalAll_iff h hps hqs]

end

theorem Statement.equalAll_iff (h : Expr.Codes code P) : ∀ {ss ts : List Statement},
    (∀ e ∈ ss.flatMap Statement.parts, P e) → (∀ e ∈ ts.flatMap Statement.parts, P e) →
      (Statement.equalAll ss ts = true ↔ ss.map (encode code) = ts.map (encode code))
  | [], ts, _, _ => by cases ts <;> simp [Statement.equalAll]
  | s :: ss, [], _, _ => by
    cases s with
    | letBind name mutable type init => cases init <;> simp [Statement.equalAll]
    | eval e => simp [Statement.equalAll]
  | s :: ss, t :: ts, hs, ht => by
    obtain ⟨hs, hss⟩ := List.forall_mem_append.mp hs
    obtain ⟨ht, hts⟩ := List.forall_mem_append.mp ht
    have hrest := Statement.equalAll_iff h hss hts
    cases s with
    | letBind name mutable type init =>
      cases t with
      | eval b => cases init <;> simp [Statement.equalAll, encode]
      | letBind name' mutable' type' init' =>
        cases init with
        | none => cases init' <;> simp [Statement.equalAll, encode, hrest, and_assoc]
        | some a =>
          cases init' with
          | none => simp [Statement.equalAll, encode]
          | some b =>
            have hab := h a b (hs a (by simp [parts])) (ht b (by simp [parts]))
            simp [Statement.equalAll, encode, hab, hrest, and_assoc]
    | eval a =>
      cases t with
      | eval b =>
        have hab := h a b (hs a (by simp [parts])) (ht b (by simp [parts]))
        simp [Statement.equalAll, encode, hab, hrest]
      | letBind name mutable type init => simp [Statement.equalAll, encode]

theorem Arm.equalAll_iff (h : Expr.Codes code P) : ∀ {as bs : List Arm},
    (∀ e ∈ as.flatMap Arm.parts, P e) → (∀ e ∈ bs.flatMap Arm.parts, P e) →
      (Arm.equalAll as bs = true ↔ as.map (encode code) = bs.map (encode code))
  | [], bs, _, _ => by cases bs <;> simp [Arm.equalAll]
  | a :: as, [], _, _ => by simp [Arm.equalAll]
  | ⟨p, a⟩ :: as, ⟨q, b⟩ :: bs, ha, hb => by
    obtain ⟨ha, has⟩ := List.forall_mem_append.mp ha
    obtain ⟨hb, hbs⟩ := List.forall_mem_append.mp hb
    obtain ⟨hp, ha⟩ := List.forall_mem_append.mp ha
    obtain ⟨hq, hb⟩ := List.forall_mem_append.mp hb
    have hab := h a b (ha a List.mem_cons_self) (hb b List.mem_cons_self)
    simp [Arm.equalAll, encode, Pattern.equal_iff h hp hq, hab, Arm.equalAll_iff h has hbs]

theorem Parameter.equalAll_iff (h : Expr.Codes code P) : ∀ {ps qs : List Parameter},
    (∀ e ∈ ps.flatMap fun param => param.pattern.constants, P e) →
    (∀ e ∈ qs.flatMap fun param => param.pattern.constants, P e) →
      (Parameter.equalAll ps qs = true ↔ ps.map (encode code) = qs.map (encode code))
  | [], qs, _, _ => by cases qs <;> simp [Parameter.equalAll]
  | p :: ps, [], _, _ => by simp [Parameter.equalAll]
  | ⟨p, t⟩ :: ps, ⟨q, u⟩ :: qs, hp, hq => by
    obtain ⟨hp, hps⟩ := List.forall_mem_append.mp hp
    obtain ⟨hq, hqs⟩ := List.forall_mem_append.mp hq
    simp [Parameter.equalAll, encode, Pattern.equal_iff h hp hq, Parameter.equalAll_iff h hps hqs,
      and_comm]

/-! ### Z-set literals -/

/-- A look-up finds the weight that stands under the code. -/
theorem ZSetLiteral.find?_eq_weightOf? (h : Expr.Codes code P) {entries : List (Expr × Int)}
    (hentries : ∀ entry ∈ entries, P entry.1) {e : Expr} (he : P e) :
    ZSetLiteral.find? entries e = weightOf? code entries (code e) := by
  induction entries with
  | nil => rfl
  | cons entry entries ih =>
    obtain ⟨element, weight⟩ := entry
    obtain ⟨helement, hrest⟩ := List.forall_mem_cons.mp hentries
    have ih := ih hrest
    have hcode := h element e helement he
    rw [find?, ih, weightOf?, weightOf?, List.find?_cons]
    by_cases heq : code element = code e
    · simp [heq, hcode.mpr heq]
    · have hne : element.equal e = false := Bool.eq_false_iff.mpr (heq ∘ hcode.mp)
      simp [heq, hne]

/-- So does a look-up with the comparison turned around. -/
theorem ZSetLiteral.find?_map_eq_weightOf? (h : Expr.Codes code P) {entries : List (Expr × Int)}
    (hentries : ∀ entry ∈ entries, P entry.1) {e : Expr} (he : P e) :
    (entries.find? fun entry => e.equal entry.1).map Prod.snd =
      weightOf? code entries (code e) := by
  induction entries with
  | nil => rfl
  | cons entry entries ih =>
    obtain ⟨helement, hrest⟩ := List.forall_mem_cons.mp hentries
    have ih := ih hrest
    have hcode := h e entry.1 he helement
    rw [weightOf?, List.find?_cons, List.find?_cons]
    by_cases heq : code e = code entry.1
    · simp [heq, hcode.mpr heq]
    · have hne : e.equal entry.1 = false := Bool.eq_false_iff.mpr (heq ∘ hcode.mp)
      simp only [hne, decide_eq_false (Ne.symm heq)]
      exact ih

theorem ZSetLiteral.agree_iff {entries others : List (Expr × Int)} {own : Expr → Option Int} :
    ZSetLiteral.agree entries own others = true ↔
      ∀ entry ∈ entries,
        (others.find? fun other => entry.1.equal other.1).map Prod.snd = own entry.1 := by
  induction entries with
  | nil => simp [agree]
  | cons entry entries ih =>
    obtain ⟨element, weight⟩ := entry
    simp [agree, ih]

theorem ZSetLiteral.exists_of_weightOf? {entries : List (Expr × Int)} {c : Expr} {w : Int}
    (hw : weightOf? code entries c = some w) : ∃ entry ∈ entries, code entry.1 = c := by
  obtain ⟨entry, hentry, -⟩ := Option.map_eq_some_iff.mp hw
  have hcode := List.find?_some hentry
  exact ⟨entry, List.mem_of_find?_eq_some hentry, of_decide_eq_true hcode⟩

/-- **Z-set literals.** They are compared as functions from codes to weights. -/
theorem ZSetLiteral.equal_iff_weights (h : Expr.Codes code P) {y z : ZSetLiteral}
    (hy : ∀ entry ∈ y.entries, P entry.1) (hz : ∀ entry ∈ z.entries, P entry.1) :
    y.equal z = true ↔ y.elementType = z.elementType ∧
      weightOf? code y.entries = weightOf? code z.entries := by
  obtain ⟨t, es⟩ := y
  obtain ⟨u, fs⟩ := z
  have hagree : ZSetLiteral.agree es (ZSetLiteral.find? es) fs = true ↔
      ∀ entry ∈ es, weightOf? code fs (code entry.1) = weightOf? code es (code entry.1) := by
    rw [agree_iff]
    refine forall₂_congr fun entry hentry => ?_
    rw [find?_map_eq_weightOf? h hz (hy entry hentry), find?_eq_weightOf? h hy (hy entry hentry)]
  have hall : (fs.all fun entry => (ZSetLiteral.find? es entry.1).isSome) = true ↔
      ∀ entry ∈ fs, (weightOf? code es (code entry.1)).isSome := by
    rw [List.all_eq_true]
    refine forall₂_congr fun entry hentry => ?_
    rw [find?_eq_weightOf? h hy (hz entry hentry)]
  have htype : (t == u) = true ↔ t = u := by simp
  rw [ZSetLiteral.equal, Bool.and_eq_true, Bool.and_eq_true, htype, hagree, hall, and_assoc]
  refine and_congr_right fun _ => ⟨?_, fun hweights => ?_⟩
  · rintro ⟨hleft, hright⟩
    funext c
    cases hes : weightOf? code es c with
    | some w =>
      obtain ⟨entry, hentry, rfl⟩ := exists_of_weightOf? hes
      rw [hleft entry hentry, hes]
    | none =>
      -- an element of the second literal would be one of the first
      cases hfs : weightOf? code fs c with
      | none => rfl
      | some w =>
        obtain ⟨entry, hentry, rfl⟩ := exists_of_weightOf? hfs
        have hsome := hright entry hentry
        rw [hes] at hsome
        cases hsome
  · rw [hweights]
    refine ⟨fun _ _ => rfl, fun entry hentry => ?_⟩
    rw [weightOf?, Option.isSome_map, List.find?_isSome]
    exact ⟨entry, hentry, decide_eq_true rfl⟩

/-! ### Forms -/

/-- **Forms.** Two forms are equal iff they are the same in codes of their parts. -/
theorem Form.equal_iff (h : Expr.Codes code P) {f g : Form} (hf : ∀ e ∈ f.parts, P e)
    (hg : ∀ e ∈ g.parts, P e) :
    f.equal g = true ↔ f.encode code = g.encode code ∧ f.weights code = g.weights code := by
  -- forms of two constructors differ in their codes as well, so only the same one twice matters
  cases f with
  | zset y =>
    cases g with
    | zset z =>
      have hyz := ZSetLiteral.equal_iff_weights h (y := y) (z := z)
        (fun entry hentry => hf _ (List.mem_map_of_mem hentry))
        (fun entry hentry => hg _ (List.mem_map_of_mem hentry))
      simp [Form.equal, encode, weights, hyz]
    | _ => simp [Form.equal, encode]
  | literal value => cases g <;> simp [Form.equal, encode, weights, sameLiteral_iff]
  | var name => cases g <;> simp [Form.equal, encode, weights]
  | path segments => cases g <;> simp [Form.equal, encode, weights]
  | field base index =>
    cases g with
    | field base' index' =>
      have hbase := h base base' (hf base (by simp [parts])) (hg base' (by simp [parts]))
      simp [Form.equal, encode, weights, hbase, and_comm]
    | _ => simp [Form.equal, encode]
  | unary op operand =>
    cases g with
    | unary op' operand' =>
      have hoperand := h operand operand' (hf _ (by simp [parts])) (hg _ (by simp [parts]))
      simp [Form.equal, encode, weights, hoperand]
    | _ => simp [Form.equal, encode]
  | cast operand =>
    cases g with
    | cast operand' =>
      have hoperand := h operand operand' (hf _ (by simp [parts])) (hg _ (by simp [parts]))
      simp [Form.equal, encode, weights, hoperand]
    | _ => simp [Form.equal, encode]
  | deref operand =>
    cases g with
    | deref operand' =>
      have hoperand := h operand operand' (hf _ (by simp [parts])) (hg _ (by simp [parts]))
      simp [Form.equal, encode, weights, hoperand]
    | _ => simp [Form.equal, encode]
  | qualify operand types =>
    cases g with
    | qualify operand' types' =>
      have hoperand := h operand operand' (hf _ (by simp [parts])) (hg _ (by simp [parts]))
      simp [Form.equal, encode, weights, hoperand]
    | _ => simp [Form.equal, encode]
  | borrow operand mutable =>
    cases g with
    | borrow operand' mutable' =>
      have hoperand := h operand operand' (hf _ (by simp [parts])) (hg _ (by simp [parts]))
      simp [Form.equal, encode, weights, hoperand, and_comm]
    | _ => simp [Form.equal, encode]
  | binary op left right =>
    cases g with
    | binary op' left' right' =>
      have hleft := h left left' (hf left (by simp [parts])) (hg left' (by simp [parts]))
      have hright := h right right' (hf right (by simp [parts])) (hg right' (by simp [parts]))
      simp [Form.equal, encode, weights, hleft, hright, and_assoc]
    | _ => simp [Form.equal, encode]
  | assign target value =>
    cases g with
    | assign target' value' =>
      have htarget := h target target' (hf target (by simp [parts])) (hg target' (by simp [parts]))
      have hvalue := h value value' (hf value (by simp [parts])) (hg value' (by simp [parts]))
      simp [Form.equal, encode, weights, htarget, hvalue]
    | _ => simp [Form.equal, encode]
  | tuple fields =>
    cases g with
    | tuple fields' =>
      have hfields : Expr.equalAll fields fields' = true ↔ fields.map code = fields'.map code :=
        Expr.equalAll_iff h hf hg
      simp [Form.equal, encode, weights, hfields]
    | _ => simp [Form.equal, encode]
  | rawTuple fields =>
    cases g with
    | rawTuple fields' =>
      have hfields : Expr.equalAll fields fields' = true ↔ fields.map code = fields'.map code :=
        Expr.equalAll_iff h hf hg
      simp [Form.equal, encode, weights, hfields]
    | _ => simp [Form.equal, encode]
  | struct fields =>
    cases g with
    | struct fields' =>
      have hfields : Expr.equalAll fields fields' = true ↔ fields.map code = fields'.map code :=
        Expr.equalAll_iff h hf hg
      simp [Form.equal, encode, weights, hfields]
    | _ => simp [Form.equal, encode]
  | apply function args =>
    cases g with
    | apply function' args' =>
      obtain ⟨hfunction, hargs⟩ := List.forall_mem_cons.mp hf
      obtain ⟨hfunction', hargs'⟩ := List.forall_mem_cons.mp hg
      have heq := h function function' hfunction hfunction'
      simp [Form.equal, encode, weights, heq, Expr.equalAll_iff h hargs hargs']
    | _ => simp [Form.equal, encode]
  | closure params body =>
    cases g with
    | closure params' body' =>
      obtain ⟨hparams, hbody⟩ := List.forall_mem_append.mp hf
      obtain ⟨hparams', hbody'⟩ := List.forall_mem_append.mp hg
      have heq := h body body' (hbody body (by simp)) (hbody' body' (by simp))
      simp [Form.equal, encode, weights, heq, Parameter.equalAll_iff h hparams hparams']
    | _ => simp [Form.equal, encode]
  | block statements last =>
    cases g with
    | block statements' last' =>
      obtain ⟨hstatements, hlast⟩ := List.forall_mem_append.mp hf
      obtain ⟨hstatements', hlast'⟩ := List.forall_mem_append.mp hg
      have hall := Statement.equalAll_iff h hstatements hstatements'
      cases last with
      | none => cases last' <;> simp [Form.equal, encode, weights, hall]
      | some last =>
        cases last' with
        | none => simp [Form.equal, encode]
        | some last' =>
          have heq := h last last' (hlast last (by simp)) (hlast' last' (by simp))
          simp [Form.equal, encode, weights, hall, heq]
    | _ => cases last <;> simp [Form.equal, encode]
  | ifElse condition positive negative =>
    cases g with
    | ifElse condition' positive' negative' =>
      have hcondition := h condition condition' (hf _ (by simp [parts])) (hg _ (by simp [parts]))
      have hpositive := h positive positive' (hf _ (by simp [parts])) (hg _ (by simp [parts]))
      cases negative with
      | none => cases negative' <;> simp [Form.equal, encode, weights, hcondition, hpositive]
      | some negative =>
        cases negative' with
        | none => simp [Form.equal, encode]
        | some negative' =>
          have hnegative := h negative negative' (hf _ (by simp [parts]))
            (hg _ (by simp [parts]))
          simp [Form.equal, encode, weights, hcondition, hpositive, hnegative, and_assoc]
    | _ => cases negative <;> simp [Form.equal, encode]
  | matchOn subject arms =>
    cases g with
    | matchOn subject' arms' =>
      obtain ⟨hsubject, harms⟩ := List.forall_mem_cons.mp hf
      obtain ⟨hsubject', harms'⟩ := List.forall_mem_cons.mp hg
      have heq := h subject subject' hsubject hsubject'
      simp [Form.equal, encode, weights, heq, Arm.equalAll_iff h harms harms']
    | _ => simp [Form.equal, encode]
  | forLoop pattern iterated body =>
    cases g with
    | forLoop pattern' iterated' body' =>
      obtain ⟨hpattern, hparts⟩ := List.forall_mem_append.mp hf
      obtain ⟨hpattern', hparts'⟩ := List.forall_mem_append.mp hg
      have hiterated := h iterated iterated' (hparts _ (by simp)) (hparts' _ (by simp))
      have hbody := h body body' (hparts _ (by simp)) (hparts' _ (by simp))
      simp [Form.equal, encode, weights, Pattern.equal_iff h hpattern hpattern', hiterated, hbody,
        and_assoc]
    | _ => simp [Form.equal, encode]

end Comparisons

/-! ### The next code -/

namespace Expr

/-- What is compared of an expression, in codes of its parts. -/
def content (code : Expr → Expr) (e : Expr) : Option Ty × Form × (Expr → Option Int) :=
  (e.type, e.form.encode code, e.form.weights code)

theorem equal_iff_content {code : Expr → Expr} {P : Expr → Prop} (h : Codes code P) {a b : Expr}
    (ha : ∀ part ∈ a.form.parts, P part) (hb : ∀ part ∈ b.form.parts, P part) :
    a.equal b = true ↔ a.content code = b.content code := by
  obtain ⟨tag, type, form⟩ := a
  obtain ⟨tag', type', form'⟩ := b
  have hforms : form.equal form' = true ↔ _ := Form.equal_iff h ha hb
  simp [Expr.equal, content, hforms]

theorem sizeOf_lt_of_mem_parts {e part : Expr} (h : part ∈ e.form.parts) :
    sizeOf part < sizeOf e := by
  have hform := Form.sizeOf_lt_of_mem_parts h
  obtain ⟨tag, type, form⟩ := e
  simp only [Expr.mk.sizeOf_spec] at hform ⊢
  omega

instance : Inhabited Expr := ⟨⟨.anonymous, none, .literal none⟩⟩

/-- **Codes.** The expressions up to a size have codes: for each content, some expression that has
it. -/
theorem exists_codes (n : Nat) : ∃ code : Expr → Expr, Codes code fun e => sizeOf e < n := by
  induction n with
  | zero => exact ⟨id, fun a _ ha _ => absurd ha (Nat.not_lt_zero _)⟩
  | succ n ih =>
    obtain ⟨code, hcode⟩ := ih
    refine ⟨fun e => Function.invFun (content code) (e.content code), fun a b ha hb => ?_⟩
    -- the parts are smaller, so the code at hand tells them apart
    have hparts (e : Expr) (he : sizeOf e < n + 1) : ∀ part ∈ e.form.parts, sizeOf part < n := by
      intro part hpart
      have hlt := sizeOf_lt_of_mem_parts hpart
      omega
    have hcontent (e : Expr) :
        content code (Function.invFun (content code) (e.content code)) = e.content code :=
      Function.invFun_eq ⟨e, rfl⟩
    rw [equal_iff_content hcode (hparts a ha) (hparts b hb)]
    constructor
    · intro heq
      exact congrArg (Function.invFun (content code)) heq
    · intro heq
      rw [← hcontent a, ← hcontent b]
      exact congrArg (content code) heq

/-- **Equality.** Equality of expressions is an equivalence. -/
theorem equal_equivalence : Equivalence fun a b : Expr => a.equal b = true where
  refl a := by
    obtain ⟨code, hcode⟩ := exists_codes (sizeOf a + 1)
    exact (hcode a a (Nat.lt_succ_self _) (Nat.lt_succ_self _)).mpr rfl
  symm {a b} hab := by
    obtain ⟨code, hcode⟩ := exists_codes (sizeOf a + sizeOf b + 1)
    have heq := (hcode a b (by omega) (by omega)).mp hab
    exact (hcode b a (by omega) (by omega)).mpr heq.symm
  trans {a b c} hab hbc := by
    obtain ⟨code, hcode⟩ := exists_codes (sizeOf a + sizeOf b + sizeOf c + 1)
    have hleft := (hcode a b (by omega) (by omega)).mp hab
    have hright := (hcode b c (by omega) (by omega)).mp hbc
    exact (hcode a c (by omega) (by omega)).mpr (hleft.trans hright)

end Expr

/-- A code for all expressions. -/
theorem Expr.exists_code : ∃ code : Expr → Expr, Codes code fun _ => True := by
  refine ⟨fun e => Function.invFun Expr.equal e.equal, fun a b _ _ => ?_⟩
  have hself (e : Expr) : (Function.invFun Expr.equal e.equal).equal = e.equal :=
    Function.invFun_eq ⟨e, rfl⟩
  constructor
  · intro hab
    -- equal expressions are equal to the same expressions
    have hsame : a.equal = b.equal := by
      funext c
      rw [Bool.eq_iff_iff]
      exact ⟨equal_equivalence.trans (equal_equivalence.symm hab), equal_equivalence.trans hab⟩
    exact congrArg (Function.invFun Expr.equal) hsame
  · intro hcode
    have hsame : a.equal = b.equal := by
      rw [← hself a, ← hself b]
      exact congrArg Expr.equal hcode
    rw [hsame]
    exact equal_equivalence.refl b

/-- **Equality of Z-set literals.** Two literals are equal iff they have one element type and one
weight for every expression. -/
theorem ZSetLiteral.equal_iff {y z : ZSetLiteral} :
    y.equal z = true ↔ y.elementType = z.elementType ∧
      ∀ e, ZSetLiteral.find? y.entries e = ZSetLiteral.find? z.entries e := by
  obtain ⟨code, hcode⟩ := Expr.exists_code
  rw [equal_iff_weights hcode (fun _ _ => trivial) fun _ _ => trivial]
  have hfind (entries : List (Expr × Int)) (e : Expr) :
      ZSetLiteral.find? entries e = weightOf? code entries (code e) :=
    find?_eq_weightOf? hcode (fun _ _ => trivial) trivial
  simp only [hfind]
  refine and_congr_right fun _ => ⟨fun heq e => congrFun heq (code e), fun heq => ?_⟩
  funext c
  -- a code that no element has stands for no weight
  by_cases hc : ∃ e, code e = c
  · obtain ⟨e, rfl⟩ := hc
    exact heq e
  · have hnone (entries : List (Expr × Int)) : weightOf? code entries c = none := by
      rw [Option.eq_none_iff_forall_ne_some]
      intro w hw
      obtain ⟨entry, -, hentry⟩ := exists_of_weightOf? hw
      exact hc ⟨entry.1, hentry⟩
    rw [hnone, hnone]

end DeltaCircuit
