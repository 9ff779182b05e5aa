import DeltaCircuit.Circuit.Pass.SimplifyFunctions
import DeltaCircuit.Proofs.Circuit.Rewiring
import DeltaCircuit.Proofs.Expr.Simplifiable

/-!
# What simplifying functions gives

The pass leaves every operator where it is and changes nothing but functions. A simplified function
has the signatures of the old one, so the operator passes every check again.

* `Circuit.EveryFunction` — what holds of all functions of a circuit.
* `Circuit.simplifiedFrom` — the circuit with simplified functions.
* `Circuit.Built.simplifyFunctions` — the pass goes through and gives that circuit.
-/

namespace DeltaCircuit

/-! ### Functions -/

namespace Expr

/-- A simplified function keeps the signatures of the function. -/
theorem Reduces.hasSignature {f g : Expr} (h : f.Reduces g) {params : List Ty} {result : Ty}
    (hf : f.HasSignature params result) : g.HasSignature params result := by
  obtain ⟨⟨declared, body, hform, haccepts⟩, hresult, hclosed⟩ := hf
  have hparams : g.params? = some declared := h.params declared (by simp [params?, hform])
  obtain ⟨body', hform'⟩ : ∃ body', g.form = .closure declared body' := by
    unfold params? at hparams
    split at hparams
    · next found body' hform' =>
      obtain rfl := Option.some.inj hparams
      exact ⟨body', hform'⟩
    · cases hparams
  refine ⟨⟨declared, body', hform', haccepts⟩, ?_, ?_⟩
  · simpa [resultType?, functionType?, hform, hform', h.type] using hresult
  · -- no free name is left, so none comes up
    rw [← isClosed_iff, isClosed, List.isEmpty_iff] at hclosed ⊢
    have huses := h.uses []
    rw [hclosed] at huses
    exact List.subset_nil.mp huses

/-- **Alike.** The same expression, apart from the identity of its node. -/
def Alike (e e' : Expr) : Prop := e'.type = e.type ∧ e'.form = e.form

theorem Alike.refl (e : Expr) : e.Alike e := ⟨rfl, rfl⟩

theorem Alike.symm {e e' : Expr} (h : e.Alike e') : e'.Alike e := ⟨h.1.symm, h.2.symm⟩

theorem Alike.trans {e e' e'' : Expr} (h : e.Alike e') (h' : e'.Alike e'') : e.Alike e'' :=
  ⟨h'.1.trans h.1, h'.2.trans h.2⟩

theorem alike_identify (e : Expr) (tag : Tag) : e.Alike (e.identify tag) := by
  unfold identify
  split
  · exact ⟨rfl, rfl⟩
  · exact .refl e

/-- Nothing that a signature is about looks at the identity of a node. -/
theorem HasSignature.of_alike {f g : Expr} {params : List Ty} {result : Ty} (halike : f.Alike g)
    (h : f.HasSignature params result) : g.HasSignature params result := by
  obtain ⟨tag, type, form⟩ := f
  obtain ⟨tag', type', form'⟩ := g
  obtain ⟨rfl, rfl⟩ := halike
  exact ⟨h.closure, h.result, h.closed⟩

theorem Simplifiable.of_alike {e e' : Expr} (halike : e.Alike e') (h : e.Simplifiable) :
    e'.Simplifiable := by
  obtain ⟨tag, type, form⟩ := e
  obtain ⟨tag', type', form'⟩ := e'
  obtain ⟨rfl, rfl⟩ := halike
  exact ⟨.node h.built.here h.built.part, .node h.plain.here h.plain.part⟩

/-- Simplification does not look at the identity of the node that it starts with. -/
theorem Alike.simplify {e e' g : Expr} (h : e.Alike e') (hg : e.simplify = .ok g) :
    ∃ g', e'.simplify = .ok g' ∧ g.Alike g' := by
  obtain ⟨tag, type, form⟩ := e
  obtain ⟨tag', type', form'⟩ := e'
  obtain ⟨rfl, rfl⟩ := h
  obtain ⟨-, parts, rebuilt, hparts, hrebuilt, hafter⟩ := (transform_eq_ok.mp hg).resolve_left nofun
  -- the walked node is the old one in both cases or in none
  obtain ⟨rebuilt', hrebuilt', hsame⟩ :
      ∃ rebuilt', withForm ⟨tag', type', form'⟩ parts = .ok rebuilt' ∧ rebuilt.Alike rebuilt' := by
    unfold withForm at hrebuilt ⊢
    by_cases hbeq : parts.beq form' = true
    · rw [if_pos hbeq] at hrebuilt ⊢
      obtain rfl := Except.ok.inj hrebuilt
      exact ⟨_, rfl, rfl, rfl⟩
    · rw [if_neg hbeq] at hrebuilt ⊢
      exact ⟨rebuilt, hrebuilt, .refl rebuilt⟩
  obtain ⟨simpler, hsimpler, hg'⟩ := Except.bind_eq_ok.mp hafter
  have hsimpler' : rebuilt'.simplerForm? = .ok simpler := by
    rw [← hsimpler, simplerForm?, simplerForm?, hsame.1, hsame.2]
  refine ⟨simpler.getD rebuilt', ?_, ?_⟩
  · exact transform_eq_ok.mpr (.inr ⟨rfl, parts, rebuilt', hparts, hrebuilt',
      Except.bind_eq_ok.mpr ⟨simpler, hsimpler', rfl⟩⟩)
  · obtain rfl := Except.ok.inj hg'
    cases simpler with
    | none => exact hsame
    | some simpler => exact .refl simpler

/-! ### Simplified functions -/

/-- The simplified function, which has an identity of its own if it is another one. -/
def simplified (number : Nat) (f : Expr) : Expr :=
  match f.simplify with
  | .ok g => if g.sameNode f then f else g.identify (.rebuilt number)
  | .error _ => f

/-- A simplified function is what simplification gives, apart from its identity. -/
theorem alike_simplified {f g : Expr} (h : f.simplify = .ok g) (number : Nat) :
    g.Alike (f.simplified number) := by
  unfold simplified
  rw [h]
  dsimp only
  split
  · next hsame =>
    obtain rfl : g = f := by simpa [sameNode] using hsame
    exact .refl g
  · exact g.alike_identify _

/-- Alike functions are simplified alike, whatever identities the results get. -/
theorem Alike.simplified {f f' : Expr} (h : f.Alike f') (number number' : Nat) :
    (f.simplified number).Alike (f'.simplified number') := by
  cases hf : f.simplify with
  | ok g =>
    obtain ⟨g', hg', halike⟩ := h.simplify hf
    exact ((alike_simplified hf number).symm.trans halike).trans (alike_simplified hg' number')
  | error e =>
    cases hf' : f'.simplify with
    | ok g' =>
      obtain ⟨g, hg, -⟩ := h.symm.simplify hf'
      cases hf.symm.trans hg
    | error e' => simpa [Expr.simplified, hf, hf'] using h

theorem Simplifiable.simplified {f : Expr} (h : f.Simplifiable) (number : Nat) :
    (f.simplified number).Simplifiable := by
  obtain ⟨g, hg, hreduces⟩ := exists_simplify h
  exact hreduces.simplifiable.of_alike (alike_simplified hg number)

theorem Simplifiable.hasSignature_simplified {f : Expr} (h : f.Simplifiable) (number : Nat)
    {params : List Ty} {result : Ty} (hf : f.HasSignature params result) :
    (f.simplified number).HasSignature params result := by
  obtain ⟨g, hg, hreduces⟩ := exists_simplify h
  exact (hreduces.hasSignature hf).of_alike (alike_simplified hg number)

end Expr

/-- The operator with a simplified function. -/
def Operator.simplified (number : Nat) (op : Operator) : Operator :=
  { op with function := op.function.map (Expr.simplified number) }

namespace Circuit

/-- What holds of all functions of a circuit. -/
def EveryFunction (P : Expr → Prop) (c : Circuit) : Prop :=
  ∀ op ∈ c.operators, ∀ f, op.function = some f → P f

/-- The circuit with simplified functions, whose new identities start at a number. -/
def simplifiedFrom (number : Nat) (c : Circuit) : Circuit :=
  { c with operators := c.numbered.map fun (id, op) => op.simplified (number + id) }

variable {c : Circuit} {op : Operator} {number n : Nat}

theorem EveryFunction.push {P : Expr → Prop} (h : c.EveryFunction P)
    (hop : ∀ f, op.function = some f → P f) : (c.push op).EveryFunction P := by
  intro other hmem f hf
  rcases List.mem_append.mp hmem with hold | hlast
  · exact h other hold f hf
  · obtain rfl := List.mem_singleton.mp hlast
    exact hop f hf

theorem EveryFunction.of_push {P : Expr → Prop} (h : (c.push op).EveryFunction P) :
    c.EveryFunction P ∧ ∀ f, op.function = some f → P f :=
  ⟨fun other hmem => h other (List.mem_append_left _ hmem),
    h op (List.mem_append_right _ (List.mem_singleton_self op))⟩

theorem simplifiedFrom_push (number : Nat) (c : Circuit) (op : Operator) :
    (c.push op).simplifiedFrom number =
      (c.simplifiedFrom number).push (op.simplified (number + c.size)) := by
  unfold simplifiedFrom
  rw [numbered_push, List.map_append]
  rfl

@[simp] theorem size_simplifiedFrom (number : Nat) (c : Circuit) :
    (c.simplifiedFrom number).size = c.size := by
  simp [simplifiedFrom, size, numbered]

theorem EveryFunction.simplifiedFrom (h : c.EveryFunction Expr.Simplifiable) (number : Nat) :
    (c.simplifiedFrom number).EveryFunction Expr.Simplifiable := by
  intro op' hop' f' hf'
  obtain ⟨⟨id, op⟩, hmem, rfl⟩ := List.mem_map.mp hop'
  obtain ⟨f, hf, rfl⟩ := Option.map_eq_some_iff.mp hf'
  have hop : op ∈ c.operators := List.mem_of_getElem? (mem_numbered.mp hmem)
  exact (h op hop f hf).simplified (number + id)

end Circuit

/-! ### The pass -/

namespace Rewiring

open Circuit (EveryFunction)

variable {c : Circuit} {op : Operator} {number n : Nat} {r : Rewiring}

/-- **The invariant of the pass.** The output is the front of the circuit with simplified functions,
and every operator stands for itself. -/
structure SimplifiesFunctions (c : Circuit) (number n : Nat) (r : Rewiring) : Prop
    extends Follows c n r where
  output_eq : r.output = (c.take n).simplifiedFrom number
  mapped : ∀ i : Nat, i < n → r.mapped? i = some i

namespace SimplifiesFunctions

theorem start (c : Circuit) (number : Nat) :
    SimplifiesFunctions c number 0 (Rewiring.start c.name false) where
  toFollows := .start c
  output_eq := rfl
  mapped i hi := absurd hi (Nat.not_lt_zero i)

/-- The invariant after an operator that is put at its own place. -/
theorem next (hr : SimplifiesFunctions c number n r) (hop : c.get? n = some op) {r' : Rewiring}
    (hfollows : Follows c (n + 1) r')
    (houtput : r'.output = r.output.push (op.simplified (number + n)))
    (hmapping : r'.mapping = Assoc.set r.mapping n r.output.size) :
    SimplifiesFunctions c number (n + 1) r' := by
  have hsize : (c.take n).size = n :=
    Circuit.size_take (Nat.le_of_lt (Circuit.lt_size_of_get? hop))
  refine { toFollows := hfollows, output_eq := ?_, mapped := ?_ }
  · rw [houtput, hr.output_eq, Circuit.take_succ hop, Circuit.simplifiedFrom_push, hsize]
  · intro i hi
    rw [Rewiring.mapped?, hmapping, Assoc.get?_set]
    split
    · next hni => rw [hr.output_eq, Circuit.size_simplifiedFrom, hsize, hni]
    · next hni =>
      exact hr.mapped i (Nat.lt_of_le_of_ne (Nat.le_of_lt_succ hi) fun h => hni h.symm)

/-- Every input stands for itself. -/
theorem mapped_inputs (hr : SimplifiesFunctions c number n r) (hc : c.Built)
    (hop : c.get? n = some op) :
    List.Forall₂ (fun input new => r.mapped? input = some new) op.inputs op.inputs :=
  List.forall₂_same.mpr fun input hinput => hr.mapped input (hc.ordered n op hop input hinput)

/-- An operator whose function stays the same is kept. -/
theorem kept (hr : SimplifiesFunctions c number n r) (hc : c.Built) (hop : c.get? n = some op)
    (hsimplified : op.simplified (number + n) = op) :
    ∃ r', (discard (Rewiring.keep n op) : Rewire Unit) r = (.ok (), r') ∧
      SimplifiesFunctions c number (n + 1) r' := by
  obtain ⟨r', hkeep, houtput, hmapping, hr'⟩ := hr.keep hc hop (hr.mapped_inputs hc hop)
  refine ⟨r', discard_eq hkeep, hr.next hop hr' ?_ hmapping⟩
  rw [houtput, hsimplified]
  rfl

/-- An operator with a new function is put in the place of the old one. -/
theorem replaced (hr : SimplifiesFunctions c number n r) (hc : c.Built) (hop : c.get? n = some op)
    {f : Expr} (hfunction : op.function = some f) (hf : f.Simplifiable) :
    ∃ r', (discard (Rewiring.replace n (op.simplified (number + n))) : Rewire Unit) r =
        (.ok (), r') ∧
      SimplifiesFunctions c number (n + 1) r' := by
  -- the operator with the new function has the type of the old one
  have hderive := hr.derive_eq_ok hc hop (hr.mapped_inputs hc hop)
  rw [hfunction] at hderive
  have hderive' : r.output.derive op.kind op.inputs (op.simplified (number + n)).function =
      .ok (op.outputType, op.isMultiset) := by
    rw [Operator.simplified, hfunction]
    exact Circuit.derive_function_congr
      (fun _ _ => hf.hasSignature_simplified (number + n)) hderive
  obtain ⟨r', hreplace, houtput, hmapping, hr'⟩ :=
    hr.replace hop (op.simplified (number + n)) rfl ⟨rfl, rfl⟩ hderive'
  exact ⟨r', discard_eq hreplace, hr.next hop hr' houtput hmapping⟩

/-- One operator of the pass. -/
theorem step (hr : SimplifiesFunctions c number n r) (hc : c.Built)
    (hf : c.EveryFunction Expr.Simplifiable) (hop : c.get? n = some op) :
    ∃ r', simplifyFunction number n op r = (.ok (), r') ∧
      SimplifiesFunctions c number (n + 1) r' := by
  unfold simplifyFunction
  cases hfunction : op.function with
  | none =>
    refine hr.kept hc hop ?_
    rw [Operator.simplified, hfunction, Option.map_none, ← hfunction]
  | some f =>
    have hsimplifiable := hf op (List.mem_of_getElem? hop) f hfunction
    obtain ⟨g, hg, hreduces⟩ := Expr.exists_simplify hsimplifiable
    have hsimplified : op.simplified (number + n) =
        op.withFunction (f.simplified (number + n)) := by
      rw [Operator.simplified, hfunction]
      rfl
    simp only [hg]
    by_cases hnode : g.sameNode f = true
    · -- a function that is still the same node keeps the operator as it is
      have hunchanged : f.simplified (number + n) = f := by
        rw [Expr.simplified, hg]
        exact if_pos hnode
      rw [if_pos hnode]
      refine hr.kept hc hop ?_
      rw [hsimplified, hunchanged, Operator.withFunction, ← hfunction]
    · have hchanged : f.simplified (number + n) = g.identify (.rebuilt (number + n)) := by
        rw [Expr.simplified, hg]
        exact if_neg hnode
      have hoperator : (op.withFunction (g.identify (.rebuilt (number + n)))).withInputs op.inputs =
          op.simplified (number + n) := by
        rw [hsimplified, hchanged]
        rfl
      rw [if_neg hnode, get_bind, mapInputs_eq_ok.mpr (hr.mapped_inputs hc hop)]
      dsimp only
      rw [hoperator]
      exact hr.replaced hc hop hfunction hsimplifiable

end SimplifiesFunctions
end Rewiring

namespace Circuit

variable {c : Circuit}

/-- **What the pass gives.** It goes through if all functions can be simplified, and gives the
circuit with simplified functions. -/
theorem Built.simplifyFunctions (hc : c.Built) (hf : c.EveryFunction Expr.Simplifiable) :
    c.simplifyFunctions = .ok (c.simplifiedFrom c.freshNumber) ∧
      (c.simplifiedFrom c.freshNumber).Built := by
  obtain ⟨r, hr, hrun⟩ := Rewiring.run_induction
    (Rewiring.SimplifiesFunctions c c.freshNumber) (.start c c.freshNumber)
    fun n op r hop hr => hr.step hc hf hop
  have houtput : r.output = c.simplifiedFrom c.freshNumber := by
    rw [hr.output_eq, take_size]
  rw [← houtput]
  refine ⟨?_, hr.built⟩
  rw [← hr.finish_eq]
  exact hrun

end Circuit
end DeltaCircuit
