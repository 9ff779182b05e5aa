import DeltaCircuit.Proofs.Circuit.Derivation
import Mathlib.Data.List.Induction

/-!
# Circuits that are built by insertions

`Circuit.Built` holds of the circuits that successful insertions build, starting from an empty one.
What an insertion checks is therefore a fact about every operator of such a circuit.

* `Circuit.insert_eq_ok`, `Circuit.build_eq_ok` — when an insertion succeeds, and what it gives.
* `Circuit.Ordered` — operators read only what stands in front of them.
* `Circuit.Built.derive_take` — the type and the flag of every operator are the derived ones.
-/

namespace DeltaCircuit
namespace Circuit

/-- The circuits that successful insertions build. -/
inductive Built : Circuit → Prop
  | empty (name : String) : Built (.empty name)
  | insert {c c' : Circuit} {op : Operator} {id : OperatorId} :
      Built c → c.insert op = .ok (c', id) → Built c'

/-- Every operator reads only operators in front of it. -/
def Ordered (c : Circuit) : Prop :=
  ∀ (id : Nat) op, c.get? id = some op → ∀ input : Nat, input ∈ op.inputs → input < id

variable {c : Circuit} {op : Operator} {id : Nat}

/-! ### Appended operators -/

@[simp] theorem size_empty (name : String) : (Circuit.empty name).size = 0 := rfl

@[simp] theorem size_push (c : Circuit) (op : Operator) : (c.push op).size = c.size + 1 := by
  simp [size, push]

@[simp] theorem name_push (c : Circuit) (op : Operator) : (c.push op).name = c.name := rfl

theorem lt_size_of_get? (h : c.get? id = some op) : id < c.size :=
  (List.getElem?_eq_some_iff.mp h).1

theorem get?_push_of_lt (h : id < c.size) : (c.push op).get? id = c.get? id :=
  List.getElem?_append_left h

/-- What stood in the circuit still stands in it. -/
theorem get?_push_of_some {other : Operator} (h : c.get? id = some op) :
    (c.push other).get? id = some op := by
  rw [get?_push_of_lt (lt_size_of_get? h), h]

@[simp] theorem get?_push_size (c : Circuit) (op : Operator) :
    (c.push op).get? c.size = some op := by
  simp [get?, push, size]

/-- Everything in a longer circuit is old or the last operator. -/
theorem get?_push_eq_some {other : Operator} (h : (c.push other).get? id = some op) :
    c.get? id = some op ∨ (id = c.size ∧ other = op) := by
  rcases Nat.lt_or_ge id c.size with hlt | hge
  · rw [get?_push_of_lt hlt] at h
    exact .inl h
  · have hid : id = c.size := by
      have hsize := lt_size_of_get? h
      rw [size_push] at hsize
      omega
    subst hid
    rw [get?_push_size] at h
    exact .inr ⟨rfl, Option.some.inj h⟩

/-- Every circuit is built by appending operators. -/
theorem pushRec {motive : Circuit → Prop} (empty : ∀ name, motive (.empty name))
    (push : ∀ c op, motive c → motive (c.push op)) (c : Circuit) : motive c := by
  obtain ⟨name, operators⟩ := c
  induction operators using List.reverseRecOn with
  | nil => exact empty name
  | append_singleton operators op ih => exact push ⟨name, operators⟩ op ih

/-! ### Operators in order -/

theorem length_numbered (c : Circuit) : c.numbered.length = c.size := by
  simp [numbered, size]

theorem getElem?_numbered (c : Circuit) (n : Nat) :
    c.numbered[n]? = (c.get? n).map fun op => (n, op) := by
  simp [numbered, get?, List.getElem?_zipIdx, Function.comp_def]

theorem mem_numbered {id : Nat} {op : Operator} :
    (id, op) ∈ c.numbered ↔ c.get? id = some op := by
  rw [List.mem_iff_getElem?]
  constructor
  · rintro ⟨n, hn⟩
    rw [getElem?_numbered] at hn
    obtain ⟨other, hother, h⟩ := Option.map_eq_some_iff.mp hn
    obtain ⟨rfl, rfl⟩ := Prod.mk.inj h
    exact hother
  · intro h
    exact ⟨id, by rw [getElem?_numbered, h]; rfl⟩

/-- From a place in the circuit on, the operator at the place comes first. -/
theorem drop_numbered {n : Nat} {op : Operator} (h : c.get? n = some op) :
    c.numbered.drop n = (n, op) :: c.numbered.drop (n + 1) := by
  have hget : c.numbered[n]? = some (n, op) := by
    rw [getElem?_numbered, h]
    rfl
  obtain ⟨hlt, hval⟩ := List.getElem?_eq_some_iff.mp hget
  rw [List.drop_eq_getElem_cons hlt, hval]

theorem drop_numbered_size (c : Circuit) : c.numbered.drop c.size = [] := by
  exact List.drop_eq_nil_iff.mpr (Nat.le_of_eq (length_numbered c))

/-- Everything before the end of a circuit is an operator. -/
theorem exists_get?_of_lt {n : Nat} (h : n < c.size) : ∃ op, c.get? n = some op :=
  ⟨_, List.getElem?_eq_getElem h⟩

theorem numbered_push (c : Circuit) (op : Operator) :
    (c.push op).numbered = c.numbered ++ [(c.size, op)] := by
  simp [numbered, push, size, List.zipIdx_append]

/-! ### Insertions that succeed -/

/-- An insertion succeeds iff the type and the flag of the operator are the derived ones. -/
theorem insert_eq_ok {r : Circuit × OperatorId} :
    c.insert op = .ok r ↔
      c.derive op.kind op.inputs op.function = .ok (op.outputType, op.isMultiset) ∧
        r = (c.push op, c.size) := by
  unfold insert
  rw [Except.bind_eq_ok]
  constructor
  · rintro ⟨⟨type, multiset⟩, hderive, h⟩
    -- the insertion compares the derived type and flag with those of the operator
    by_cases htype : type = op.outputType
    · by_cases hflag : multiset = op.isMultiset
      · subst htype hflag
        simp only [ne_eq, not_true_eq_false, if_false, Except.pure_eq_ok] at h
        exact ⟨hderive, by simpa using h.symm⟩
      · simp [htype, hflag, bind, Except.bind, throw, throwThe, MonadExceptOf.throw] at h
    · simp [htype, bind, Except.bind, throw, throwThe, MonadExceptOf.throw] at h
  · rintro ⟨hderive, rfl⟩
    exact ⟨_, hderive, by simp⟩

/-- Building an operator of a kind succeeds iff its type can be derived. -/
theorem build_eq_ok {kind : OperatorKind} {inputs : List OperatorId} {function : Option Expr}
    {r : Circuit × OperatorId} :
    c.build kind inputs function = .ok r ↔
      ∃ type multiset, c.derive kind inputs function = .ok (type, multiset) ∧
        r = (c.push ⟨kind, inputs, function, type, multiset⟩, c.size) := by
  unfold build
  rw [Except.bind_eq_ok]
  simp only [insert_eq_ok]
  constructor
  · rintro ⟨⟨type, multiset⟩, hderive, -, rfl⟩
    exact ⟨type, multiset, hderive, rfl⟩
  · rintro ⟨type, multiset, hderive, rfl⟩
    exact ⟨_, hderive, hderive, rfl⟩

/-- An operator whose type is derived extends a built circuit. -/
theorem Built.push (hc : c.Built)
    (h : c.derive op.kind op.inputs op.function = .ok (op.outputType, op.isMultiset)) :
    (c.push op).Built :=
  .insert hc (insert_eq_ok.mpr ⟨h, rfl⟩)

/-- What holds of empty circuits and is kept by operators whose type is derived holds of built
circuits. -/
theorem Built.pushInduction {motive : (c : Circuit) → c.Built → Prop}
    (empty : ∀ name, motive (.empty name) (.empty name))
    (push : ∀ (c : Circuit) (op : Operator) (hc : c.Built)
      (hderive : c.derive op.kind op.inputs op.function = .ok (op.outputType, op.isMultiset)),
      motive c hc → motive (c.push op) (hc.push hderive))
    {c : Circuit} (hc : c.Built) : motive c hc := by
  induction hc with
  | empty name => exact empty name
  | insert hc h ih =>
    obtain ⟨hderive, hr⟩ := insert_eq_ok.mp h
    obtain ⟨rfl, -⟩ := Prod.mk.inj hr
    exact push _ _ hc hderive ih

/-! ### Relays -/

/-- The operator of a relaying kind that reads another one. -/
def relay (kind : OperatorKind) (input : Nat) (other : Operator) : Operator :=
  ⟨kind, [input], none, other.outputType, other.isMultiset⟩

/-- A relay can be put behind every operator. -/
theorem addUnary_relay {kind : OperatorKind} (hkind : kind.isRelay = true) {input : Nat}
    {other : Operator} (hother : c.get? input = some other) :
    c.addUnary kind input = .ok (c.push (relay kind input other), c.size) :=
  build_eq_ok.mpr ⟨_, _, derive_relay hkind hother, rfl⟩

/-! ### Operators of built circuits -/

/-- The first operators of a circuit. -/
def take (c : Circuit) (n : Nat) : Circuit := { c with operators := c.operators.take n }

theorem size_take {n : Nat} (h : n ≤ c.size) : (c.take n).size = n := by
  rw [size, take, List.length_take]
  exact Nat.min_eq_left h

theorem take_size (c : Circuit) : c.take c.size = c := by
  rw [take, size, List.take_length]

theorem take_succ {n : Nat} (h : c.get? n = some op) : c.take (n + 1) = (c.take n).push op := by
  obtain ⟨hlt, rfl⟩ := List.getElem?_eq_some_iff.mp h
  rw [take, List.take_succ_eq_append_getElem hlt]
  rfl

theorem get?_take_of_lt {n : Nat} (h : id < n) : (c.take n).get? id = c.get? id :=
  List.getElem?_take_of_lt h

theorem get?_of_get?_take {n : Nat} (h : (c.take n).get? id = some op) :
    id < n ∧ c.get? id = some op := by
  have hlt : id < n := by
    have hsize := lt_size_of_get? h
    simp only [size, take, List.length_take] at hsize
    omega
  exact ⟨hlt, (get?_take_of_lt hlt).symm.trans h⟩

/-- **Operators are as derived.** In a built circuit the type and the flag of every operator are
those that are derived in the circuit before it. -/
theorem Built.derive_take (hc : c.Built) (hget : c.get? id = some op) :
    (c.take id).derive op.kind op.inputs op.function = .ok (op.outputType, op.isMultiset) := by
  induction hc using Built.pushInduction generalizing id op with
  | empty name => simp [get?, Circuit.empty] at hget
  | push c last _ hderive ih =>
    rcases get?_push_eq_some hget with hold | ⟨rfl, hlast⟩
    · -- an old operator stands in front of the last one, so the circuit before it is the same
      have hle : id ≤ c.operators.length := Nat.le_of_lt (lt_size_of_get? hold)
      have htake : (c.push last).take id = c.take id := by
        simp [take, Circuit.push, List.take_append_of_le_length hle]
      rw [htake]
      exact ih hold
    · -- before the last operator stands the circuit that it extends
      have htake : (c.push last).take c.size = c := by
        simp [take, Circuit.push, size]
      subst hlast
      rw [htake]
      exact hderive

/-- The inputs of what is derived exist. -/
theorem exists_input_of_derive {kind : OperatorKind} {inputs : List OperatorId}
    {function : Option Expr} {r : Ty × Bool} (h : c.derive kind inputs function = .ok r)
    {input : Nat} (hinput : input ∈ inputs) : ∃ other, c.get? input = some other := by
  obtain ⟨-, -, ops, hops, -⟩ := derive_eq_ok.mp h
  obtain ⟨i, hi⟩ := List.mem_iff_getElem?.mp hinput
  obtain ⟨hlt, rfl⟩ := List.getElem?_eq_some_iff.mp hi
  exact ⟨_, hops.get hlt (hops.length_eq ▸ hlt)⟩

theorem Built.ordered (hc : c.Built) : c.Ordered := by
  intro id op hget input hinput
  obtain ⟨other, hother⟩ := exists_input_of_derive (hc.derive_take hget) hinput
  exact (get?_of_get?_take hother).1

/-- A relay in a built circuit reads one operator, of its own type and flag. -/
theorem Built.relay (hc : c.Built) (hget : c.get? id = some op) (hkind : op.kind.isRelay = true) :
    op.function = none ∧ ∃ (input : Nat) (other : Operator), op.inputs = [input] ∧ input < id ∧
      c.get? input = some other ∧ other.OutputsLike op := by
  obtain ⟨hfunction, input, other, hinputs, hother, hr⟩ :=
    (derive_relay_eq_ok hkind).mp (hc.derive_take hget)
  obtain ⟨hlt, hother⟩ := get?_of_get?_take hother
  obtain ⟨htype, hflag⟩ := Prod.mk.inj hr
  exact ⟨hfunction, input, other, hinputs, hlt, hother, htype.symm, hflag.symm⟩

/-! ### Sources of built circuits -/

theorem Built.source_inputs (hc : c.Built) (hop : c.get? id = some op)
    (hsource : op.kind.isSource = true) : op.inputs = [] := by
  obtain ⟨harity, -⟩ := derive_eq_ok.mp (hc.derive_take hop)
  cases hkind : op.kind with
  | source table element =>
    rw [hkind] at harity
    simpa [OperatorKind.arity, Arity.accepts] using harity
  | _ =>
    rw [hkind] at hsource
    cases hsource

/-- Every table has one source. -/
theorem Built.source_unique (hc : c.Built) {i j : Nat} {op op' : Operator} {table : String}
    (hop : c.get? i = some op) (hop' : c.get? j = some op') (htable : op.kind.table? = some table)
    (htable' : op'.kind.table? = some table) : i = j := by
  have hfresh : ∀ {i j : Nat} {op op' : Operator}, c.get? i = some op → c.get? j = some op' →
      op.kind.table? = some table → op'.kind.table? = some table → ¬i < j := by
    intro i j op op' hop hop' htable htable' hlt
    have hnone := source?_eq_none.mp (source?_eq_none_of_derive (hc.derive_take hop') htable')
    have hmem : op ∈ (c.take j).operators :=
      List.mem_of_getElem? ((get?_take_of_lt hlt).trans hop)
    exact hnone op hmem htable
  rcases Nat.lt_trichotomy i j with hlt | heq | hgt
  · exact absurd hlt (hfresh hop hop' htable htable')
  · exact heq
  · exact absurd hgt (hfresh hop' hop htable' htable)

end Circuit
end DeltaCircuit
