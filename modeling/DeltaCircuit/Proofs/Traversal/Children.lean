import DeltaCircuit.Traversal.Walk
import Mathlib.Data.List.Basic

/-!
# What a walk visits below a node

A walk is written as one function for each sort of node and each kind of list. What it does is the
same everywhere: it visits the nodes right below a node, one after another, between entering and
leaving it. This file lists those nodes, in their order, and says so once for all sorts.

* `SyntaxNode.children` — the nodes right below a node. A type comes before the expressions of its
  node, what a loop iterates over before the pattern, and the pattern of a parameter before its
  type; arms are nodes below a match.
* `SyntaxNode.walk_eq` — the walk of a node is the walks of the nodes below it, one after another.
* `SyntaxNode.children_induction` — induction from the nodes below a node to the node.
-/

namespace DeltaCircuit

/-! ### Nodes below -/

/-- The component types of a kind. -/
def Kind.children : Kind → List Ty
  | .base _ => []
  | .tuple fields | .rawTuple fields => fields
  | .struct _ fields => fields.map StructField.type
  | .vec element => [element]
  | .zset element weight => [element, weight]
  | .indexedZSet key value weight => [key, value, weight]
  | .function result params => result.toList ++ params
  | .reference inner _ => [inner]
  | .user _ args => args

/-- The nodes of a closure parameter. -/
def Parameter.children (param : Parameter) : List SyntaxNode :=
  .pattern param.pattern :: param.type.toList.map .type

/-- The nodes right below an expression of a form, its type apart. -/
def Form.children : Form → List SyntaxNode
  | .literal _ | .var _ | .path _ => []
  | .field operand _ | .unary _ operand | .cast operand | .borrow operand _ | .deref operand =>
    [.expr operand]
  | .binary _ left right => [.expr left, .expr right]
  | .apply function args => .expr function :: args.map .expr
  | .closure params body => params.flatMap Parameter.children ++ [.expr body]
  | .block statements last => statements.map .statement ++ last.toList.map .expr
  | .ifElse condition positive negative =>
    .expr condition :: .expr positive :: negative.toList.map .expr
  | .matchOn subject arms => .expr subject :: arms.map .arm
  | .forLoop pattern iterated body => [.expr iterated, .pattern pattern, .expr body]
  | .assign target value => [.expr target, .expr value]
  | .tuple fields | .rawTuple fields | .struct fields => fields.map .expr
  | .qualify operand types => .expr operand :: types.map .type
  | .zset z => z.entries.map fun entry => .expr entry.1

def Pattern.children : Pattern → List SyntaxNode
  | .identifier _ _ | .wildcard => []
  | .tuple fields => fields.map .pattern
  | .literal value => [.expr value]

def Statement.children : Statement → List SyntaxNode
  | .letBind _ _ type init => type.toList.map .type ++ init.toList.map .expr
  | .eval e => [.expr e]

/-- **The nodes right below a node**, in the order of a visit. -/
def SyntaxNode.children : SyntaxNode → List SyntaxNode
  | .type t => t.kind.children.map .type
  | .expr e => e.type.toList.map .type ++ e.form.children
  | .pattern p => p.children
  | .statement st => st.children
  | .arm a => [.pattern a.pattern, .expr a.result]

/-! ### The walk -/

section

variable {σ : Type} (v : Visitor σ)

/-- Visits nodes one after another. -/
def SyntaxNode.walkAll (ns : List SyntaxNode) (s : σ) : σ := ns.foldl (fun s n => n.walk v s) s

namespace SyntaxNode

variable {v} {s : σ}

@[simp] theorem walkAll_nil : walkAll v [] s = s := rfl

@[simp] theorem walkAll_cons {n : SyntaxNode} {ns : List SyntaxNode} :
    walkAll v (n :: ns) s = walkAll v ns (n.walk v s) := rfl

@[simp] theorem walkAll_append {ns ns' : List SyntaxNode} :
    walkAll v (ns ++ ns') s = walkAll v ns' (walkAll v ns s) := List.foldl_append

@[simp] theorem walkAll_types {ts : List Ty} :
    walkAll v (ts.map .type) s = Ty.walkAll v ts s := by
  induction ts generalizing s with
  | nil => rfl
  | cons t ts ih => exact ih

@[simp] theorem walkAll_optional {t : Option Ty} :
    walkAll v (t.toList.map .type) s = Ty.walkOptional v t s := by
  cases t <;> rfl

theorem walkAll_fields {fields : List StructField} :
    walkAll v ((fields.map StructField.type).map .type) s = StructField.walkAll v fields s := by
  induction fields generalizing s with
  | nil => rfl
  | cons field fields ih =>
    cases field
    exact ih

@[simp] theorem walkAll_exprs {es : List Expr} :
    walkAll v (es.map .expr) s = Expr.walkAll v es s := by
  induction es generalizing s with
  | nil => rfl
  | cons e es ih => exact ih

@[simp] theorem walkAll_patterns {ps : List Pattern} :
    walkAll v (ps.map .pattern) s = Pattern.walkAll v ps s := by
  induction ps generalizing s with
  | nil => rfl
  | cons p ps ih => exact ih

@[simp] theorem walkAll_statements {statements : List Statement} :
    walkAll v (statements.map .statement) s = Statement.walkAll v statements s := by
  induction statements generalizing s with
  | nil => rfl
  | cons statement statements ih => exact ih

@[simp] theorem walkAll_arms {arms : List Arm} :
    walkAll v (arms.map .arm) s = Arm.walkAll v arms s := by
  induction arms generalizing s with
  | nil => rfl
  | cons arm arms ih =>
    cases arm
    exact ih

@[simp] theorem walkAll_params {params : List Parameter} :
    walkAll v (params.flatMap Parameter.children) s = Parameter.walkAll v params s := by
  induction params generalizing s with
  | nil => rfl
  | cons param params ih =>
    -- a parameter has two nodes, its pattern and, if it is there, its type
    rw [List.flatMap_cons, walkAll_append, ih, Parameter.children, walkAll_cons, walkAll_optional]
    cases param
    rfl

@[simp] theorem walkAll_entries {entries : List (Expr × Int)} :
    walkAll v (entries.map fun entry => .expr entry.1) s = ZSetLiteral.walkAll v entries s := by
  induction entries generalizing s with
  | nil => rfl
  | cons entry entries ih => exact ih

theorem walkParts_kind {kind : Kind} :
    kind.walkParts v s = walkAll v (kind.children.map .type) s := by
  cases kind with
  | struct name fields => exact walkAll_fields.symm
  | function result params =>
    -- the result, if there is one, comes before the parameters
    rw [Kind.children, List.map_append, walkAll_append, walkAll_types, walkAll_optional]
    cases result <;> rfl
  | tuple fields => exact walkAll_types.symm
  | rawTuple fields => exact walkAll_types.symm
  | user name args => exact walkAll_types.symm
  | _ => rfl

theorem walkParts_form {form : Form} : form.walkParts v s = walkAll v form.children s := by
  cases form with
  | apply function args => exact walkAll_exprs.symm
  | closure params body => simp [Form.children, Form.walkParts, SyntaxNode.walk]
  | block statements last =>
    rw [Form.children, walkAll_append, walkAll_statements]
    cases last <;> rfl
  | ifElse condition positive negative => cases negative <;> rfl
  | matchOn subject arms => exact walkAll_arms.symm
  | tuple fields => exact walkAll_exprs.symm
  | rawTuple fields => exact walkAll_exprs.symm
  | struct fields => exact walkAll_exprs.symm
  | qualify operand types => exact walkAll_types.symm
  | zset z =>
    cases z
    exact walkAll_entries.symm
  | _ => rfl

theorem walkParts_expr {type : Option Ty} {form : Form} :
    form.walkParts v (Ty.walkOptional v type s) =
      walkAll v (type.toList.map .type ++ form.children) s := by
  rw [walkAll_append, walkAll_optional, walkParts_form]

/-- **The walk of a node.** Whatever the sort of a node is, its walk visits the nodes below it, one
after another, between entering and leaving it. -/
theorem walk_eq {n : SyntaxNode} : n.walk v s = v.around n (walkAll v n.children) s := by
  -- the two sides enter and leave the same node, so only what happens in between is compared
  have hbetween {parts parts' : σ → σ} (h : ∀ s, parts s = parts' s) :
      v.around n parts s = v.around n parts' s := by rw [funext h]
  cases n with
  | type t =>
    obtain ⟨kind, nullable⟩ := t
    exact hbetween fun _ => walkParts_kind
  | expr e =>
    obtain ⟨tag, type, form⟩ := e
    exact hbetween fun _ => walkParts_expr
  | pattern p =>
    cases p with
    | tuple fields => exact hbetween fun _ => walkAll_patterns.symm
    | _ => rfl
  | statement st =>
    cases st with
    | letBind name mutable type init =>
      have hchildren : ∀ s, walkAll v (children (.statement (.letBind name mutable type init))) s =
          walkAll v (init.toList.map .expr) (Ty.walkOptional v type s) := fun s => by
        rw [children, Statement.children, walkAll_append, walkAll_optional]
      cases init with
      | none => exact hbetween fun s => (hchildren s).symm
      | some init => exact hbetween fun s => (hchildren s).symm
    | eval e => rfl
  | arm a =>
    obtain ⟨pattern, result⟩ := a
    rfl

/-! ### Children are smaller -/

section

variable {α : Type} [SizeOf α] {make : α → SyntaxNode} {m n : SyntaxNode}

theorem sizeOf_lt_of_mem_map (hmake : ∀ a, sizeOf (make a) = 1 + sizeOf a) {as : List α}
    (h : m ∈ as.map make) : sizeOf m < 1 + sizeOf as := by
  obtain ⟨a, ha, rfl⟩ := List.mem_map.mp h
  have hlt := List.sizeOf_lt_of_mem ha
  rw [hmake]
  omega

theorem sizeOf_lt_of_mem_optional (hmake : ∀ a, sizeOf (make a) = 1 + sizeOf a) {a : Option α}
    (h : m ∈ a.toList.map make) : sizeOf m < 1 + sizeOf a := by
  obtain ⟨a, ha, rfl⟩ := List.mem_map.mp h
  obtain rfl := Option.mem_toList.mp ha
  rw [hmake, Option.some.sizeOf_spec]
  omega

end

theorem sizeOf_lt_of_mem_kind {kind : Kind} {t : Ty} (h : t ∈ kind.children) :
    sizeOf t < sizeOf kind := by
  cases kind with
  | base kind => cases h
  | struct name fields =>
    -- the type stands in one of the fields
    obtain ⟨field, hfield, rfl⟩ := List.mem_map.mp h
    have hlt := List.sizeOf_lt_of_mem hfield
    obtain ⟨name', type⟩ := field
    simp only [Kind.struct.sizeOf_spec, StructField.mk.sizeOf_spec] at hlt ⊢
    omega
  | function result params =>
    simp only [Kind.function.sizeOf_spec]
    rcases List.mem_append.mp h with h | h
    · obtain rfl := Option.mem_toList.mp h
      simp only [Option.some.sizeOf_spec]
      omega
    · have hlt := List.sizeOf_lt_of_mem h
      omega
  | tuple fields | rawTuple fields | user name fields =>
    have hlt : sizeOf t < sizeOf fields := List.sizeOf_lt_of_mem h
    simp only [Kind.tuple.sizeOf_spec, Kind.rawTuple.sizeOf_spec, Kind.user.sizeOf_spec]
    omega
  | vec element | reference element mutable =>
    obtain rfl := List.mem_singleton.mp h
    simp only [Kind.vec.sizeOf_spec, Kind.reference.sizeOf_spec]
    omega
  | zset element weight | indexedZSet key element weight =>
    simp only [Kind.children, List.mem_cons, List.not_mem_nil, or_false] at h
    simp only [Kind.zset.sizeOf_spec, Kind.indexedZSet.sizeOf_spec]
    grind

theorem sizeOf_lt_of_mem_params {params : List Parameter} {m : SyntaxNode}
    (h : m ∈ params.flatMap Parameter.children) : sizeOf m < 1 + sizeOf params := by
  obtain ⟨param, hparam, hm⟩ := List.mem_flatMap.mp h
  have hlt := List.sizeOf_lt_of_mem hparam
  obtain ⟨pattern, type⟩ := param
  rw [Parameter.mk.sizeOf_spec] at hlt
  rcases List.mem_cons.mp hm with rfl | hm
  · simp only [SyntaxNode.pattern.sizeOf_spec]
    omega
  · have htype : sizeOf m < 1 + sizeOf type :=
      sizeOf_lt_of_mem_optional SyntaxNode.type.sizeOf_spec hm
    omega

theorem sizeOf_lt_of_mem_form {form : Form} {m : SyntaxNode} (h : m ∈ form.children) :
    sizeOf m < 1 + sizeOf form := by
  cases form with
  | literal value | var name | path segments => cases h
  | field operand index | unary op operand | cast operand | borrow operand mutable | deref operand =>
    obtain rfl := List.mem_singleton.mp h
    simp only [expr.sizeOf_spec, Form.field.sizeOf_spec, Form.unary.sizeOf_spec,
      Form.cast.sizeOf_spec, Form.borrow.sizeOf_spec, Form.deref.sizeOf_spec]
    omega
  | binary op left right | assign left right =>
    simp only [Form.children, List.mem_cons, List.not_mem_nil, or_false] at h
    simp only [Form.binary.sizeOf_spec, Form.assign.sizeOf_spec]
    obtain rfl | rfl := h
    all_goals
      rw [expr.sizeOf_spec]
      omega
  | forLoop pattern iterated body =>
    simp only [Form.children, List.mem_cons, List.not_mem_nil, or_false] at h
    rw [Form.forLoop.sizeOf_spec]
    obtain rfl | rfl | rfl := h
    · rw [expr.sizeOf_spec]
      omega
    · rw [SyntaxNode.pattern.sizeOf_spec]
      omega
    · rw [expr.sizeOf_spec]
      omega
  | tuple fields | rawTuple fields | struct fields =>
    have hlt := sizeOf_lt_of_mem_map expr.sizeOf_spec h
    simp
    omega
  | apply operand args =>
    rw [Form.apply.sizeOf_spec]
    rcases List.mem_cons.mp h with rfl | h
    · rw [expr.sizeOf_spec]
      omega
    · have hlt := sizeOf_lt_of_mem_map expr.sizeOf_spec h
      omega
  | qualify operand types =>
    rw [Form.qualify.sizeOf_spec]
    rcases List.mem_cons.mp h with rfl | h
    · rw [expr.sizeOf_spec]
      omega
    · have hlt := sizeOf_lt_of_mem_map type.sizeOf_spec h
      omega
  | closure params body =>
    rw [Form.closure.sizeOf_spec]
    rcases List.mem_append.mp h with h | h
    · have hlt := sizeOf_lt_of_mem_params h
      omega
    · rw [List.mem_singleton.mp h, expr.sizeOf_spec]
      omega
  | block statements last =>
    rw [Form.block.sizeOf_spec]
    rcases List.mem_append.mp h with h | h
    · have hlt := sizeOf_lt_of_mem_map statement.sizeOf_spec h
      omega
    · have hlt := sizeOf_lt_of_mem_optional expr.sizeOf_spec h
      omega
  | ifElse condition positive negative =>
    rw [Form.ifElse.sizeOf_spec]
    rcases List.mem_cons.mp h with rfl | h
    · rw [expr.sizeOf_spec]
      omega
    · rcases List.mem_cons.mp h with rfl | h
      · rw [expr.sizeOf_spec]
        omega
      · have hlt := sizeOf_lt_of_mem_optional expr.sizeOf_spec h
        omega
  | matchOn subject arms =>
    rw [Form.matchOn.sizeOf_spec]
    rcases List.mem_cons.mp h with rfl | h
    · rw [expr.sizeOf_spec]
      omega
    · have hlt := sizeOf_lt_of_mem_map arm.sizeOf_spec h
      omega
  | zset z =>
    obtain ⟨elementType, entries⟩ := z
    obtain ⟨entry, hentry, rfl⟩ := List.mem_map.mp h
    -- the element stands in an entry, next to its weight
    have hlt := List.sizeOf_lt_of_mem hentry
    obtain ⟨element, weight⟩ := entry
    simp only [Prod.mk.sizeOf_spec, expr.sizeOf_spec, Form.zset.sizeOf_spec,
      ZSetLiteral.mk.sizeOf_spec] at hlt ⊢
    omega

theorem sizeOf_lt_of_mem_children {n m : SyntaxNode} (h : m ∈ n.children) : sizeOf m < sizeOf n := by
  cases n with
  | type t =>
    obtain ⟨t', ht', rfl⟩ := List.mem_map.mp h
    have hlt := sizeOf_lt_of_mem_kind ht'
    obtain ⟨kind, nullable⟩ := t
    simp only [type.sizeOf_spec, Ty.mk.sizeOf_spec] at hlt ⊢
    omega
  | expr e =>
    obtain ⟨tag, ty, form⟩ := e
    simp only [expr.sizeOf_spec, Expr.mk.sizeOf_spec]
    rcases List.mem_append.mp h with h | h
    · have hlt : sizeOf m < 1 + sizeOf ty := sizeOf_lt_of_mem_optional type.sizeOf_spec h
      omega
    · have hlt : sizeOf m < 1 + sizeOf form := sizeOf_lt_of_mem_form h
      omega
  | pattern p =>
    cases p with
    | identifier name mutable | wildcard => cases h
    | tuple fields =>
      have hlt := sizeOf_lt_of_mem_map pattern.sizeOf_spec h
      simp only [pattern.sizeOf_spec, Pattern.tuple.sizeOf_spec]
      omega
    | literal value =>
      obtain rfl := List.mem_singleton.mp h
      simp
  | statement st =>
    cases st with
    | letBind name mutable ty init =>
      simp only [statement.sizeOf_spec, Statement.letBind.sizeOf_spec]
      rcases List.mem_append.mp h with h | h
      · have hlt := sizeOf_lt_of_mem_optional type.sizeOf_spec h
        omega
      · have hlt := sizeOf_lt_of_mem_optional expr.sizeOf_spec h
        omega
    | eval e =>
      obtain rfl := List.mem_singleton.mp h
      simp
  | arm a =>
    obtain ⟨p, result⟩ := a
    simp only [children, List.mem_cons, List.not_mem_nil, or_false] at h
    rw [arm.sizeOf_spec, Arm.mk.sizeOf_spec]
    obtain rfl | rfl := h
    · rw [pattern.sizeOf_spec]
      omega
    · rw [expr.sizeOf_spec]
      omega

/-- **Induction over syntax**, from the nodes right below a node to the node. -/
theorem children_induction {motive : SyntaxNode → Prop}
    (step : ∀ n : SyntaxNode, (∀ m ∈ n.children, motive m) → motive n) (n : SyntaxNode) : motive n :=
  step n fun m _ => children_induction step m
termination_by sizeOf n
decreasing_by exact sizeOf_lt_of_mem_children ‹_›

end SyntaxNode

end

end DeltaCircuit
