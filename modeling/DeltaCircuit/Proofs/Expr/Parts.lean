import DeltaCircuit.Expr.Basic
import Mathlib.Data.List.Basic

/-!
# The parts of an expression

A node says something of the expressions right below it, wherever they stand: among operands, in
statements, in the arms of a match, in the patterns, or in a Z-set literal. This file lists them, so
that an argument over a whole expression is one induction and needs no case per kind of list.

* `Form.parts` — the expressions right below a node.
* `Form.walked`, `Form.skipped` — those of them that a walk enters, and the others.
* `Expr.parts_induction` — induction from the parts of a node to the node.
* `Expr.Everywhere` — what holds of a node and of everything below it.
-/

namespace DeltaCircuit

/-! ### Parts -/

mutual

/-- The constants that a pattern compares with. -/
def Pattern.constants : Pattern → List Expr
  | .identifier _ _ => []
  | .wildcard => []
  | .tuple fields => Pattern.constantsAll fields
  | .literal value => [value]
termination_by structural x => x

def Pattern.constantsAll : List Pattern → List Expr
  | [] => []
  | pattern :: patterns => pattern.constants ++ Pattern.constantsAll patterns
termination_by structural x => x

end

def Statement.parts : Statement → List Expr
  | .letBind _ _ _ init => init.toList
  | .eval e => [e]

def Arm.parts (arm : Arm) : List Expr := arm.pattern.constants ++ [arm.result]

/-- The expressions right below a node of a form. -/
def Form.parts : Form → List Expr
  | .literal _ | .var _ | .path _ => []
  | .field operand _ | .unary _ operand | .cast operand | .qualify operand _ | .borrow operand _
  | .deref operand => [operand]
  | .binary _ left right => [left, right]
  | .apply function args => function :: args
  | .closure params body => params.flatMap (fun param => param.pattern.constants) ++ [body]
  | .block statements last => statements.flatMap Statement.parts ++ last.toList
  | .ifElse condition positive negative => condition :: positive :: negative.toList
  | .matchOn subject arms => subject :: arms.flatMap Arm.parts
  | .forLoop pattern iterated body => pattern.constants ++ [iterated, body]
  | .assign target value => [target, value]
  | .tuple fields | .rawTuple fields | .struct fields => fields
  | .zset z => z.entries.map Prod.fst

/-- The parts that a walk enters, in order: all but the constants of patterns and the elements of
Z-set literals. -/
def Form.walked : Form → List Expr
  | .literal _ | .var _ | .path _ | .zset _ => []
  | .field operand _ | .unary _ operand | .cast operand | .qualify operand _ | .borrow operand _
  | .deref operand => [operand]
  | .binary _ left right => [left, right]
  | .apply function args => function :: args
  | .closure _ body => [body]
  | .block statements last => statements.flatMap Statement.parts ++ last.toList
  | .ifElse condition positive negative => condition :: positive :: negative.toList
  | .matchOn subject arms => subject :: arms.map Arm.result
  | .forLoop _ iterated body => [iterated, body]
  | .assign target value => [target, value]
  | .tuple fields | .rawTuple fields | .struct fields => fields

/-- The parts that a walk leaves alone: the constants of patterns and the elements of Z-set
literals. -/
def Form.skipped : Form → List Expr
  | .closure params _ => params.flatMap fun param => param.pattern.constants
  | .matchOn _ arms => arms.flatMap fun arm => arm.pattern.constants
  | .forLoop pattern _ _ => pattern.constants
  | .zset z => z.entries.map Prod.fst
  | _ => []

/-- A part is skipped or walked. -/
theorem Form.mem_parts_iff {form : Form} {e : Expr} :
    e ∈ form.parts ↔ e ∈ form.skipped ∨ e ∈ form.walked := by
  cases form with
  | closure params body => exact List.mem_append
  | forLoop pattern iterated body => exact List.mem_append
  | zset z => exact ⟨.inl, fun h => h.resolve_right List.not_mem_nil⟩
  | matchOn subject arms =>
    -- an arm has the constants of its pattern and its result
    simp only [parts, skipped, walked, Arm.parts, List.mem_cons, List.mem_flatMap, List.mem_append,
      List.mem_map, List.not_mem_nil, or_false]
    grind
  | _ => exact ⟨.inr, fun h => h.resolve_left List.not_mem_nil⟩

theorem Form.walked_subset_parts {form : Form} : form.walked ⊆ form.parts :=
  fun _ he => mem_parts_iff.mpr (.inr he)

/-! ### Parts are smaller -/

mutual

theorem Pattern.sizeOf_lt_of_mem_constants {e : Expr} :
    ∀ pattern : Pattern, e ∈ pattern.constants → sizeOf e < sizeOf pattern
  | .identifier _ _, h => by simp [Pattern.constants] at h
  | .wildcard, h => by simp [Pattern.constants] at h
  | .tuple fields, h => by
    have hlt := Pattern.sizeOf_lt_of_mem_constantsAll fields h
    simp only [Pattern.tuple.sizeOf_spec]
    omega
  | .literal value, h => by
    obtain rfl : e = value := by simpa [Pattern.constants] using h
    simp only [Pattern.literal.sizeOf_spec]
    omega

theorem Pattern.sizeOf_lt_of_mem_constantsAll {e : Expr} :
    ∀ patterns : List Pattern, e ∈ Pattern.constantsAll patterns → sizeOf e < sizeOf patterns
  | [], h => by simp [Pattern.constantsAll] at h
  | pattern :: patterns, h => by
    simp only [List.cons.sizeOf_spec]
    rcases List.mem_append.mp h with h | h
    · have hlt := Pattern.sizeOf_lt_of_mem_constants pattern h
      omega
    · have hlt := Pattern.sizeOf_lt_of_mem_constantsAll patterns h
      omega

end

theorem Statement.sizeOf_lt_of_mem_parts {e : Expr} {statement : Statement}
    (h : e ∈ statement.parts) : sizeOf e < sizeOf statement := by
  cases statement with
  | letBind name mutable type init =>
    obtain rfl : init = some e := by simpa [Statement.parts] using h
    simp only [Statement.letBind.sizeOf_spec, Option.some.sizeOf_spec]
    omega
  | eval operand =>
    obtain rfl : e = operand := by simpa [Statement.parts] using h
    simp only [Statement.eval.sizeOf_spec]
    omega

theorem Arm.sizeOf_lt_of_mem_parts {e : Expr} {arm : Arm} (h : e ∈ arm.parts) :
    sizeOf e < sizeOf arm := by
  obtain ⟨pattern, result⟩ := arm
  simp only [Arm.mk.sizeOf_spec]
  rcases List.mem_append.mp h with h | h
  · have hlt := Pattern.sizeOf_lt_of_mem_constants pattern h
    omega
  · obtain rfl : e = result := by simpa using h
    omega

/-- What stands in an element of a list is smaller than the list. -/
theorem sizeOf_lt_of_mem_flatMap {α : Type} [SizeOf α] {parts : α → List Expr}
    (hparts : ∀ {a : α} {e : Expr}, e ∈ parts a → sizeOf e < sizeOf a) {e : Expr} {as : List α}
    (h : e ∈ as.flatMap parts) : sizeOf e < sizeOf as := by
  obtain ⟨a, ha, he⟩ := List.mem_flatMap.mp h
  have hlt := List.sizeOf_lt_of_mem ha
  have hsmall := hparts he
  omega

theorem Form.sizeOf_lt_of_mem_parts {e : Expr} {form : Form} (h : e ∈ form.parts) :
    sizeOf e < sizeOf form := by
  cases form with
  | literal value | var name | path segments => exact absurd h List.not_mem_nil
  | field operand index | unary op operand | cast operand | qualify operand types
  | borrow operand mutable | deref operand =>
    obtain rfl := List.mem_singleton.mp h
    simp only [Form.field.sizeOf_spec, Form.unary.sizeOf_spec, Form.cast.sizeOf_spec,
      Form.qualify.sizeOf_spec, Form.borrow.sizeOf_spec, Form.deref.sizeOf_spec]
    omega
  | binary op left right | assign left right =>
    simp only [Form.binary.sizeOf_spec, Form.assign.sizeOf_spec]
    obtain rfl | rfl : e = left ∨ e = right := by simpa [Form.parts] using h
    all_goals omega
  | apply function args =>
    simp only [Form.apply.sizeOf_spec]
    obtain rfl | hmem := List.mem_cons.mp h
    · omega
    · have hlt := List.sizeOf_lt_of_mem hmem
      omega
  | closure params body =>
    simp only [Form.closure.sizeOf_spec]
    -- a part stands in a pattern of the parameters or is the body
    obtain hmem | hmem := List.mem_append.mp h
    · have hlt : sizeOf e < sizeOf params := by
        refine sizeOf_lt_of_mem_flatMap (fun {param e} he => ?_) hmem
        obtain ⟨pattern, type⟩ := param
        have hsmall := Pattern.sizeOf_lt_of_mem_constants pattern he
        simp only [Parameter.mk.sizeOf_spec]
        omega
      omega
    · obtain rfl : e = body := by simpa using hmem
      omega
  | block statements last =>
    -- a part stands in a statement or is the last expression
    simp only [Form.block.sizeOf_spec]
    obtain hmem | hmem := List.mem_append.mp h
    · have hlt := sizeOf_lt_of_mem_flatMap Statement.sizeOf_lt_of_mem_parts hmem
      omega
    · obtain rfl : last = some e := by simpa using hmem
      simp only [Option.some.sizeOf_spec]
      omega
  | ifElse condition positive negative =>
    simp only [Form.ifElse.sizeOf_spec]
    obtain rfl | rfl | rfl : e = condition ∨ e = positive ∨ negative = some e := by
      simpa [Form.parts] using h
    · omega
    · omega
    · simp only [Option.some.sizeOf_spec]
      omega
  | matchOn subject arms =>
    -- a part is the subject or stands in an arm
    simp only [Form.matchOn.sizeOf_spec]
    obtain rfl | hmem := List.mem_cons.mp h
    · omega
    · have hlt := sizeOf_lt_of_mem_flatMap Arm.sizeOf_lt_of_mem_parts hmem
      omega
  | forLoop pattern iterated body =>
    simp only [Form.forLoop.sizeOf_spec]
    obtain hmem | hmem := List.mem_append.mp h
    · have hlt := Pattern.sizeOf_lt_of_mem_constants pattern hmem
      omega
    · obtain rfl | rfl : e = iterated ∨ e = body := by simpa using hmem
      all_goals omega
  | tuple fields | rawTuple fields | struct fields =>
    have hlt : sizeOf e < sizeOf fields := List.sizeOf_lt_of_mem h
    simp only [Form.tuple.sizeOf_spec, Form.rawTuple.sizeOf_spec, Form.struct.sizeOf_spec]
    omega
  | zset z =>
    obtain ⟨elementType, entries⟩ := z
    obtain ⟨⟨element, weight⟩, hmem, rfl⟩ := List.mem_map.mp h
    have hlt := List.sizeOf_lt_of_mem hmem
    simp only [Form.zset.sizeOf_spec, ZSetLiteral.mk.sizeOf_spec, Prod.mk.sizeOf_spec] at hlt ⊢
    omega

/-! ### Induction -/

/-- **From the parts to the node.** What holds of a node whenever it holds of its parts holds of
every expression. -/
theorem Expr.parts_induction {motive : Expr → Prop}
    (node : ∀ e : Expr, (∀ part ∈ e.form.parts, motive part) → motive e) (e : Expr) :
    motive e := by
  refine node e fun part hpart => ?_
  have hlt : sizeOf part < sizeOf e := by
    -- the part stands in the form, and the form in the node
    have hform := Form.sizeOf_lt_of_mem_parts hpart
    obtain ⟨tag, type, form⟩ := e
    simp only [Expr.mk.sizeOf_spec] at hform ⊢
    omega
  exact Expr.parts_induction node part
termination_by sizeOf e

/-! ### Properties of all nodes -/

/-- A property of a node and of every node below it. -/
inductive Expr.Everywhere (P : Expr → Prop) : Expr → Prop where
  | node {e : Expr} : P e → (∀ part ∈ e.form.parts, Everywhere P part) → Everywhere P e

namespace Expr.Everywhere

variable {P : Expr → Prop} {e : Expr}

theorem here (h : e.Everywhere P) : P e := by
  obtain ⟨h, -⟩ := h
  exact h

theorem part (h : e.Everywhere P) : ∀ part ∈ e.form.parts, part.Everywhere P := by
  obtain ⟨-, h⟩ := h
  exact h

theorem leaf (h : P e) (hparts : e.form.parts = []) : e.Everywhere P := by
  refine .node h fun part hpart => ?_
  rw [hparts] at hpart
  exact absurd hpart List.not_mem_nil

/-- What holds of a node whenever it holds of the parts that it is about holds everywhere. -/
theorem of_parts (h : P e) (hparts : e.form.parts.Forall (Everywhere P)) : e.Everywhere P :=
  .node h (List.forall_iff_forall_mem.mp hparts)

theorem imp {Q : Expr → Prop} (h : e.Everywhere P) (hPQ : ∀ node, P node → Q node) :
    e.Everywhere Q := by
  induction h with
  | node here _ ih => exact .node (hPQ _ here) ih

/-- What holds of every node holds everywhere. -/
theorem of_all (h : ∀ e, P e) (e : Expr) : e.Everywhere P := by
  induction e using Expr.parts_induction with
  | node e ih => exact .node (h e) ih

end Expr.Everywhere

end DeltaCircuit
