import DeltaCircuit.Proofs.Circuit.Signature

/-!
# What is derived for an operator

An operator is inserted with the output type and the flag that its kind derives from what it reads.
`Circuit.Derives` has one rule for each way to do so; everything that is said of derivations here is
read off from the rules.

* `Circuit.Derives` — the rules.
* `Circuit.deriveFrom_eq_ok`, `Circuit.derive_eq_ok` — the checks succeed exactly by the rules.
* `Circuit.derive_congr` — the rules look at nothing but the output types and flags of the inputs,
  and at the names of the sources. This is what lets an operator move to another circuit.
* `Circuit.hasSignature_of_derive` — the function of what is derived has the signature of its place.
* `Circuit.derive_function_congr` — another function of the same signatures can take its place.
* `Circuit.derive_relay_eq_ok` — the kinds that hand on what they read.
-/

namespace DeltaCircuit

/-- Two operators give streams of the same type and flag. -/
def Operator.OutputsLike (a b : Operator) : Prop :=
  a.outputType = b.outputType ∧ a.isMultiset = b.isMultiset

/-- The kinds that hand on the type and the flag of their one input. -/
def OperatorKind.isRelay : OperatorKind → Bool
  | .integral | .differential | .noop | .sink _ _ _ => true
  | _ => false

namespace Circuit

/-- **The rules.** The output type and the flag that a kind derives from the operators that are read
and from the function. -/
inductive Derives (c : Circuit) :
    OperatorKind → List Operator → Option Expr → Ty × Bool → Prop
  | source {table : String} {element : Ty} : c.source? table = none →
    Derives c (.source table element) [] none (.zset element, true)
  | constant {literal : ZSetLiteral} : Derives c (.constant literal) [] none (literal.type, true)
  | map {output row : Ty} {input : Operator} {f : Expr} :
    input.outputType.elementType? = some row → f.HasSignature [.byRef row] output →
    Derives c (.map output) [input] (some f) (.zset output, true)
  | filter {row : Ty} {input : Operator} {f : Expr} :
    input.outputType.elementType? = some row → f.HasSignature [.byRef row] .bool →
    Derives c .filter [input] (some f) (input.outputType, input.isMultiset)
  | index {key value row : Ty} {input : Operator} {f : Expr} :
    input.outputType.elementType? = some row →
    f.HasSignature [.byRef row] (.rawTuple [key, value]) →
    Derives c (.index key value) [input] (some f) (.indexedZSet key value, true)
  | aggregate {key value output : Ty} {input : Operator} {f : Expr} :
    input.outputType.keyed? = some (key, value) →
    f.HasSignature [.byRef key, .byRef (groupType value)] output →
    Derives c (.aggregate key output) [input] (some f) (.indexedZSet key output, false)
  | join {key leftValue rightValue output : Ty} {left right : Operator} {f : Expr} :
    left.outputType.keyed? = some (key, leftValue) →
    right.outputType.keyed? = some (key, rightValue) →
    f.HasSignature [.byRef key, .byRef leftValue, .byRef rightValue] output →
    Derives c (.join key output) [left, right] (some f) (.zset output, true)
  | sum {first : Operator} {rest : List Operator} :
    (∀ op ∈ rest, op.outputType = first.outputType) →
    Derives c .sum (first :: rest) none (first.outputType, true)
  | subtract {left right : Operator} : right.outputType = left.outputType →
    Derives c .subtract [left, right] none (left.outputType, true)
  | negate {input : Operator} : Derives c .negate [input] none (input.outputType, true)
  | distinct {row : Ty} {input : Operator} : input.outputType.elementType? = some row →
    Derives c .distinct [input] none (input.outputType, false)
  | relay {kind : OperatorKind} {input : Operator} : kind.isRelay = true →
    Derives c kind [input] none (input.outputType, input.isMultiset)

variable {c c' : Circuit} {kind : OperatorKind} {ops ops' : List Operator}
  {inputs inputs' : List OperatorId} {function : Option Expr} {f g : Expr} {r : Ty × Bool}

/-! ### The checks succeed by the rules -/

theorem checkKey_eq_ok {operator : String} {declared key : Ty} {u : Unit} :
    checkKey operator declared key = .ok u ↔ key = declared := by
  unfold checkKey
  split <;> simp_all

theorem checkSameTypes_eq_ok {operator : String} {type : Ty} {u : Unit} :
    checkSameTypes operator type ops = .ok u ↔ ∀ op ∈ ops, op.outputType = type := by
  induction ops with
  | nil => simp [checkSameTypes]
  | cons op ops ih =>
    rw [checkSameTypes, List.forall_mem_cons, ← ih]
    split <;> simp_all

/-- **Derivations are by the rules.** -/
theorem deriveFrom_eq_ok :
    c.deriveFrom kind ops function = .ok r ↔ c.Derives kind ops function r := by
  constructor
  · intro h
    unfold deriveFrom at h
    split at h <;> simp only [Except.bind_eq_ok, Except.pure_eq_ok, elementOf_eq_ok,
      indexedParts_eq_ok, checkClosure_eq_ok, checkKey_eq_ok, checkSameTypes_eq_ok,
      Except.discard_eq_ok, Except.throw_eq_ok] at h
    case h_1 table element =>
      split at h
      · simp at h
      · next hsource =>
        obtain rfl := Except.ok.inj h
        exact .source (by simpa using hsource)
    case h_2 | h_10 =>
      obtain rfl := h
      constructor
    case h_3 | h_4 | h_5 =>
      obtain ⟨row, hrow, -, hf, rfl⟩ := h
      constructor <;> assumption
    case h_6 =>
      obtain ⟨⟨key, value⟩, hparts, -, rfl, -, hf, rfl⟩ := h
      exact .aggregate hparts hf
    case h_7 =>
      obtain ⟨⟨key, leftValue⟩, hleft, ⟨_, rightValue⟩, hright, -, rfl, -, hkey, -, hf, rfl⟩ := h
      obtain rfl : _ = key := hkey
      exact .join hleft hright hf
    case h_8 =>
      obtain ⟨-, hsame, rfl⟩ := h
      exact .sum hsame
    case h_9 =>
      obtain ⟨-, hsame, rfl⟩ := h
      exact .subtract (hsame _ List.mem_cons_self)
    case h_11 =>
      obtain ⟨-, ⟨row, hrow⟩, rfl⟩ := h
      exact .distinct hrow
    -- the relays hand on what they read
    all_goals
      obtain rfl := h
      exact .relay rfl
  · intro h
    cases h with
    | source hsource => simp [deriveFrom, hsource]
    | constant | negate => rfl
    | map hrow hf | filter hrow hf | index hrow hf =>
      simp only [deriveFrom, Except.bind_eq_ok, elementOf_eq_ok, checkClosure_eq_ok]
      exact ⟨_, hrow, (), hf, rfl⟩
    | aggregate hparts hf =>
      simp only [deriveFrom, Except.bind_eq_ok, indexedParts_eq_ok, checkKey_eq_ok,
        checkClosure_eq_ok]
      exact ⟨_, hparts, (), rfl, (), hf, rfl⟩
    | join hleft hright hf =>
      simp only [deriveFrom, Except.bind_eq_ok, indexedParts_eq_ok, checkKey_eq_ok,
        checkClosure_eq_ok]
      exact ⟨_, hleft, _, hright, (), rfl, (), rfl, (), hf, rfl⟩
    | sum hsame =>
      simp only [deriveFrom, Except.bind_eq_ok, checkSameTypes_eq_ok]
      exact ⟨(), hsame, rfl⟩
    | subtract hsame =>
      simp only [deriveFrom, Except.bind_eq_ok, checkSameTypes_eq_ok, List.forall_mem_singleton]
      exact ⟨(), hsame, rfl⟩
    | distinct hrow =>
      simp only [deriveFrom, Except.bind_eq_ok, Except.discard_eq_ok, elementOf_eq_ok]
      exact ⟨(), ⟨_, hrow⟩, rfl⟩
    | relay hkind =>
      cases kind with
      | integral | differential | noop | sink _ _ _ => rfl
      | _ => cases hkind

theorem inputOperators_eq_ok :
    c.inputOperators kind inputs = .ok ops ↔
      List.Forall₂ (fun id op => c.get? id = some op) inputs ops := by
  unfold inputOperators
  rw [List.mapM_eq_ok]
  constructor
  · intro h
    refine h.imp fun id op hop => ?_
    split at hop
    · next hget => rw [hget, Except.ok.inj hop]
    · cases hop
  · intro h
    refine h.imp fun id op hop => ?_
    rw [hop]

/-- A derivation succeeds iff the number of inputs fits, the inputs exist, a function is there
exactly if the kind needs one, and a rule derives the result. -/
theorem derive_eq_ok :
    c.derive kind inputs function = .ok r ↔
      kind.arity.accepts inputs.length = true ∧ checkFunctionPresence kind function = .ok () ∧
        ∃ ops, List.Forall₂ (fun id op => c.get? id = some op) inputs ops ∧
          c.Derives kind ops function r := by
  unfold derive
  by_cases harity : kind.arity.accepts inputs.length
  · simp only [harity, Bool.not_true, Bool.false_eq_true, if_false, Except.bind_eq_ok,
      inputOperators_eq_ok, deriveFrom_eq_ok, true_and]
    constructor
    · rintro ⟨ops, hops, ⟨⟩, hpresence, h⟩
      exact ⟨hpresence, ops, hops, h⟩
    · rintro ⟨hpresence, ops, hops, h⟩
      exact ⟨ops, hops, (), hpresence, h⟩
  · simp [harity, bind, Except.bind, throw, throwThe, MonadExceptOf.throw]

/-! ### What does not matter to a derivation -/

/-- **Derivations move.** What is derived depends on the types and flags of the inputs only, apart
from the name of a source, which has to be new in the other circuit. -/
theorem Derives.congr (h : c.Derives kind ops function r)
    (hops : List.Forall₂ Operator.OutputsLike ops ops')
    (hsource : ∀ table, kind.table? = some table → c'.source? table = none) :
    c'.Derives kind ops' function r := by
  cases h with
  | source =>
    cases hops
    exact .source (hsource _ rfl)
  | constant =>
    cases hops
    exact .constant
  | map hrow hf =>
    obtain _ | ⟨⟨htype, -⟩, ⟨⟩⟩ := hops
    exact .map (htype ▸ hrow) hf
  | filter hrow hf =>
    obtain _ | ⟨⟨htype, hflag⟩, ⟨⟩⟩ := hops
    rw [htype, hflag]
    exact .filter (htype ▸ hrow) hf
  | index hrow hf =>
    obtain _ | ⟨⟨htype, -⟩, ⟨⟩⟩ := hops
    exact .index (htype ▸ hrow) hf
  | aggregate hparts hf =>
    obtain _ | ⟨⟨htype, -⟩, ⟨⟩⟩ := hops
    exact .aggregate (htype ▸ hparts) hf
  | join hleft hright hf =>
    obtain _ | ⟨⟨hltype, -⟩, _ | ⟨⟨hrtype, -⟩, ⟨⟩⟩⟩ := hops
    exact .join (hltype ▸ hleft) (hrtype ▸ hright) hf
  | sum hsame =>
    obtain _ | ⟨⟨htype, -⟩, hrest⟩ := hops
    rw [htype]
    refine .sum fun op' hop' => ?_
    obtain ⟨op, hop, hlike⟩ := hrest.exists_of_mem_right hop'
    rw [← hlike.1, hsame op hop, htype]
  | subtract hsame =>
    obtain _ | ⟨⟨hltype, -⟩, _ | ⟨⟨hrtype, -⟩, ⟨⟩⟩⟩ := hops
    rw [hltype]
    exact .subtract (hrtype ▸ hsame.trans hltype)
  | negate =>
    obtain _ | ⟨⟨htype, -⟩, ⟨⟩⟩ := hops
    rw [htype]
    exact .negate
  | distinct hrow =>
    obtain _ | ⟨⟨htype, -⟩, ⟨⟩⟩ := hops
    rw [htype]
    exact .distinct (htype ▸ hrow)
  | relay hkind =>
    obtain _ | ⟨⟨htype, hflag⟩, ⟨⟩⟩ := hops
    rw [htype, hflag]
    exact .relay hkind

/-- Derivations move to a circuit that has, at other ids, inputs of the same types and flags. -/
theorem derive_congr
    (hinputs : List.Forall₂ (fun id id' => ∃ op op', c.get? id = some op ∧ c'.get? id' = some op' ∧
      op.OutputsLike op') inputs inputs')
    (hsource : ∀ table, kind.table? = some table → c'.source? table = none)
    (h : c.derive kind inputs function = .ok r) : c'.derive kind inputs' function = .ok r := by
  obtain ⟨harity, hpresence, ops, hops, hderive⟩ := derive_eq_ok.mp h
  -- the inputs of the other circuit are of the same types
  have hmoved : ∃ ops', List.Forall₂ (fun id op => c'.get? id = some op) inputs' ops' ∧
      List.Forall₂ Operator.OutputsLike ops ops' := by
    -- only the inputs take part in the induction
    clear harity hderive h
    induction hinputs generalizing ops with
    | nil =>
      cases hops
      exact ⟨[], .nil, .nil⟩
    | cons hinput _ ih =>
      obtain _ | ⟨hget, hops⟩ := hops
      obtain ⟨op, op', hop, hop', hlike⟩ := hinput
      obtain rfl := Option.some.inj (hop.symm.trans hget)
      obtain ⟨ops', hops', hlikes⟩ := ih _ hops
      exact ⟨op' :: ops', .cons hop' hops', .cons hlike hlikes⟩
  obtain ⟨ops', hops', hlikes⟩ := hmoved
  refine derive_eq_ok.mpr ⟨?_, hpresence, ops', hops', hderive.congr hlikes hsource⟩
  rw [← hinputs.length_eq]
  exact harity

/-- **Functions in place.** The function of what is derived has the signature of its place. -/
theorem Derives.hasSignature (h : c.Derives kind ops (some f) r) :
    ∃ params result, kind.signature? (ops.map Operator.outputType) = some (params, result) ∧
      f.HasSignature params result := by
  cases h with
  | map hrow hf | filter hrow hf | index hrow hf =>
    exact ⟨_, _, by simp [OperatorKind.signature?, hrow], hf⟩
  | aggregate hparts hf => exact ⟨_, _, by simp [OperatorKind.signature?, hparts], hf⟩
  | join hleft hright hf =>
    exact ⟨_, _, by simp [OperatorKind.signature?, hleft, hright], hf⟩

theorem hasSignature_of_derive (h : c.derive kind inputs (some f) = .ok r) :
    ∃ ops params result, List.Forall₂ (fun id op => c.get? id = some op) inputs ops ∧
      kind.signature? (ops.map Operator.outputType) = some (params, result) ∧
      f.HasSignature params result := by
  obtain ⟨-, -, ops, hops, hderive⟩ := derive_eq_ok.mp h
  obtain ⟨params, result, hsignature, hf⟩ := hderive.hasSignature
  exact ⟨ops, params, result, hops, hsignature, hf⟩

/-- **Functions can be exchanged.** A rule holds of every function that has the signatures of the
one before. -/
theorem Derives.function_congr
    (hfg : ∀ params result, f.HasSignature params result → g.HasSignature params result)
    (h : c.Derives kind ops (some f) r) : c.Derives kind ops (some g) r := by
  cases h with
  | map hrow hf => exact .map hrow (hfg _ _ hf)
  | filter hrow hf => exact .filter hrow (hfg _ _ hf)
  | index hrow hf => exact .index hrow (hfg _ _ hf)
  | aggregate hparts hf => exact .aggregate hparts (hfg _ _ hf)
  | join hleft hright hf => exact .join hleft hright (hfg _ _ hf)

theorem derive_function_congr
    (hfg : ∀ params result, f.HasSignature params result → g.HasSignature params result)
    (h : c.derive kind inputs (some f) = .ok r) : c.derive kind inputs (some g) = .ok r := by
  obtain ⟨harity, hpresence, ops, hops, hderive⟩ := derive_eq_ok.mp h
  have hpresence' : checkFunctionPresence kind (some g) = .ok () := by
    unfold checkFunctionPresence at hpresence ⊢
    cases hrequires : kind.requiresFunction with
    | false => simp [hrequires] at hpresence
    | true => rfl
  exact derive_eq_ok.mpr ⟨harity, hpresence', ops, hops, hderive.function_congr hfg⟩

/-! ### Sources -/

/-- No source of the circuit reads the table. -/
theorem source?_eq_none {table : String} :
    c.source? table = none ↔ ∀ op ∈ c.operators, op.kind.table? ≠ some table := by
  simp only [source?, idsWhere, numbered, List.head?_eq_none_iff, List.map_eq_nil_iff,
    List.filter_eq_nil_iff, List.mem_map, Prod.exists, decide_eq_true_eq]
  constructor
  · intro h op hop
    -- a source is found iff there is one among the operators
    obtain ⟨id, hid⟩ := List.mem_iff_getElem?.mp hop
    exact h (id, op) ⟨op, id, List.mk_mem_zipIdx_iff_getElem?.mpr hid, rfl⟩
  · rintro h _ ⟨op, id, hmem, rfl⟩
    exact h op (List.fst_mem_of_mem_zipIdx hmem)

/-- The table of a source that can be inserted is new. -/
theorem source?_eq_none_of_derive (h : c.derive kind inputs function = .ok r)
    {table : String} (htable : kind.table? = some table) : c.source? table = none := by
  obtain ⟨-, -, ops, -, hderive⟩ := derive_eq_ok.mp h
  cases hderive with
  | source hsource =>
    obtain rfl := Option.some.inj htable
    exact hsource
  | relay hkind => cases kind <;> cases hkind <;> cases htable
  | _ => cases htable

/-! ### Relays -/

/-- A relay hands on the type and the flag of the operator that it reads. -/
theorem derive_relay_eq_ok (hkind : kind.isRelay = true) :
    c.derive kind inputs function = .ok r ↔
      function = none ∧ ∃ input other, inputs = [input] ∧ c.get? input = some other ∧
        r = (other.outputType, other.isMultiset) := by
  rw [derive_eq_ok]
  constructor
  · rintro ⟨-, -, ops, hops, hderive⟩
    cases hderive with
    | relay =>
      obtain ⟨input, rest, hget, hrest, rfl⟩ := List.forall₂_cons_right_iff.mp hops
      obtain rfl := List.forall₂_nil_right_iff.mp hrest
      exact ⟨rfl, input, _, rfl, hget, rfl⟩
    | _ => cases hkind
  · rintro ⟨rfl, input, other, rfl, hget, rfl⟩
    refine ⟨?_, ?_, [other], .cons hget .nil, .relay hkind⟩ <;> cases kind with
      | integral | differential | noop | sink _ _ _ => rfl
      | _ => cases hkind

theorem derive_relay (hkind : kind.isRelay = true) {input : Nat} {other : Operator}
    (hother : c.get? input = some other) :
    c.derive kind [input] none = .ok (other.outputType, other.isMultiset) :=
  (derive_relay_eq_ok hkind).mpr ⟨rfl, input, other, rfl, hother, rfl⟩

end Circuit
end DeltaCircuit
