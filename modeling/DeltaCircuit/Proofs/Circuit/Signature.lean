import DeltaCircuit.Circuit.Basic
import DeltaCircuit.Proofs.Outcome

/-!
# Signatures of functions

The kind of an operator and the types of what it reads determine which types its function takes and
gives. A derivation looks at a function through this signature only.

* `OperatorKind.signature?` — the types of the parameters and of the result.
* `Expr.HasSignature` — a closure without free variables that declares no other types.
* `Circuit.checkClosure_eq_ok` — the check of a function is the signature.
-/

namespace DeltaCircuit

/-- The types of the keys and of the values of an indexed stream. -/
def Ty.keyed? (type : Ty) : Option (Ty × Ty) :=
  match type.kind with
  | .indexedZSet key value _ => some (key, value)
  | _ => none

/-- The types that a function takes and gives, from the types of the streams that its operator
reads. -/
def OperatorKind.signature? : OperatorKind → List Ty → Option (List Ty × Ty)
  | .map output, [input] => input.elementType?.map fun row => ([.byRef row], output)
  | .filter, [input] => input.elementType?.map fun row => ([.byRef row], .bool)
  | .index key value, [input] =>
    input.elementType?.map fun row => ([.byRef row], .rawTuple [key, value])
  | .aggregate _ output, [input] =>
    input.keyed?.map fun (key, value) =>
      ([.byRef key, .byRef (Circuit.groupType value)], output)
  | .join _ output, [left, right] => do
    let (key, leftValue) ← left.keyed?
    let (_, rightValue) ← right.keyed?
    return ([.byRef key, .byRef leftValue, .byRef rightValue], output)
  | _, _ => none

/-- Whether a parameter declares the type, or none. -/
def Parameter.Accepts (param : Parameter) (type : Ty) : Prop :=
  ∀ declared, param.type = some declared → declared = type

/-- A closure without free variables whose parameters and result have the given types. -/
structure Expr.HasSignature (f : Expr) (params : List Ty) (result : Ty) : Prop where
  closure : ∃ declared body, f.form = .closure declared body ∧
    List.Forall₂ Parameter.Accepts declared params
  result : f.resultType? = some result
  closed : f.freeVariables = []

theorem Expr.isClosed_iff {e : Expr} : e.isClosed = true ↔ e.freeVariables = [] := by
  unfold Expr.isClosed Expr.freeVariables
  rw [List.isEmpty_iff]
  cases huses : e.freeUses [] with
  | nil => simp
  | cons name names => simp [List.eraseDups_cons]

namespace Circuit

variable {f : Expr}

/-! ### Checks of closures -/

theorem checkParameters_eq_ok {operator : String} :
    ∀ {declared : List Parameter} {types : List Ty}, declared.length = types.length →
      (checkParameters operator declared types = .ok () ↔
        List.Forall₂ Parameter.Accepts declared types)
  | [], [], _ => by simp [checkParameters]
  | param :: params, type :: types, hlength => by
    have ih : checkParameters operator params types = .ok () ↔
        List.Forall₂ Parameter.Accepts params types :=
      checkParameters_eq_ok (Nat.succ.inj hlength)
    rw [checkParameters, List.forall₂_cons]
    cases hdeclared : param.type with
    | none =>
      have haccepts : param.Accepts type := by simp [Parameter.Accepts, hdeclared]
      simp only [haccepts, true_and]
      exact ih
    | some other =>
      have haccepts : param.Accepts type ↔ other = type := by
        simp [Parameter.Accepts, hdeclared]
      by_cases htype : other = type
      · simp only [htype, if_true, haccepts, true_and]
        exact ih
      · simp [htype, haccepts]

/-- **Checks of closures.** The check accepts the closures of the signature. -/
theorem checkClosure_eq_ok {operator : String} {params : List Ty} {result : Ty} {u : Unit} :
    checkClosure operator f params result = .ok u ↔ f.HasSignature params result := by
  unfold checkClosure
  cases hparams : f.params? with
  | none =>
    simp only [Except.throw_eq_ok, false_iff]
    rintro ⟨⟨declared, body, hform, -⟩, -, -⟩
    simp [Expr.params?, hform] at hparams
  | some declared =>
    -- only a closure has parameters
    obtain ⟨body, hform⟩ : ∃ body, f.form = .closure declared body := by
      unfold Expr.params? at hparams
      split at hparams
      · next params body hform =>
        obtain rfl := Option.some.inj hparams
        exact ⟨body, hform⟩
      · cases hparams
    constructor
    -- each check in turn, since a failed one would have thrown
    · intro h
      by_cases hlength : declared.length = params.length
      · simp only [hlength, ne_eq, not_true_eq_false, if_false, Except.bind_eq_ok] at h
        obtain ⟨⟨⟩, hdeclared, h⟩ := h
        cases hresult : f.resultType? with
        | none => simp [hresult] at h
        | some actual =>
          by_cases hactual : actual = result
          · subst hactual
            cases hclosed : f.isClosed with
            | false => simp [hresult, hclosed] at h
            | true =>
              exact ⟨⟨declared, body, hform, (checkParameters_eq_ok hlength).mp hdeclared⟩,
                hresult, Expr.isClosed_iff.mp hclosed⟩
          · simp [hresult, hactual] at h
      · simp [hlength] at h
    · rintro ⟨⟨declared', body', hform', haccepts⟩, hresult, hclosed⟩
      obtain ⟨rfl, rfl⟩ := Form.closure.inj (hform.symm.trans hform')
      have hlength := haccepts.length_eq
      have hdeclared : checkParameters operator declared params = .ok () :=
        (checkParameters_eq_ok hlength).mpr haccepts
      simp [hlength, hdeclared, hresult, Expr.isClosed_iff.mpr hclosed]

/-! ### Checks of inputs -/

theorem elementOf_eq_ok {operator : String} {input : Operator} {row : Ty} :
    elementOf operator input = .ok row ↔ input.outputType.elementType? = some row := by
  unfold elementOf
  split
  · next found heq => rw [heq, Except.ok.injEq, Option.some.injEq]
  · next heq => simp [heq]

theorem indexedParts_eq_ok {operator : String} {input : Operator} {parts : Ty × Ty} :
    indexedParts operator input = .ok parts ↔ input.outputType.keyed? = some parts := by
  unfold indexedParts Ty.keyed?
  cases input.outputType.kind <;> simp

end Circuit
end DeltaCircuit
