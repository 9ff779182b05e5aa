import DeltaCircuit.Proofs.Circuit.Incrementalize
import DeltaCircuit.Proofs.Circuit.SimplifyFunctions

/-!
# A circuit inside a larger one

A circuit that has been built with extra operators in between is, apart from those and from the ids,
the circuit that is built without them. Extra operators are neither sources nor sinks, so what can
be inserted into the one can be inserted into the other.

* `Operator.Alike` — the same operator, apart from the identity of its function.
* `Circuit.Embeds` — the smaller circuit, the larger one, and where the operators of the smaller one
  stand in the larger one.
* `Circuit.Embeds.get?`, `Circuit.Embeds.exists_origin` — both directions of that correspondence.
* `Circuit.Embeds.derive_eq_ok_iff` — the same derivations succeed in both.
* `Circuit.Embeds.of_push` — an operator of the smaller circuit counts as an extra one of the
  larger.
-/

namespace DeltaCircuit

/-- **Alike operators.** The same operator, apart from the identity of its function. -/
structure Operator.Alike (op op' : Operator) : Prop where
  kind : op'.kind = op.kind
  inputs : op'.inputs = op.inputs
  function : Option.Rel Expr.Alike op.function op'.function
  outputType : op'.outputType = op.outputType
  isMultiset : op'.isMultiset = op.isMultiset

namespace Operator

/-- The operator with its inputs renamed. -/
def rename (o : Nat → Nat) (op : Operator) : Operator := op.withInputs (op.inputs.map o)

variable {o o' : Nat → Nat} {op copy : Operator}

theorem Alike.refl (op : Operator) : op.Alike op where
  kind := rfl
  inputs := rfl
  function := by
    cases op.function with
    | none => exact .none
    | some f => exact .some (.refl f)
  outputType := rfl
  isMultiset := rfl

/-- Alike operators whose inputs are exchanged in the same way are alike. -/
theorem Alike.withInputs (h : op.Alike copy) (inputs : List OperatorId) :
    (op.withInputs inputs).Alike (copy.withInputs inputs) :=
  ⟨h.kind, rfl, h.function, h.outputType, h.isMultiset⟩

theorem rename_congr (h : ∀ input ∈ op.inputs, o input = o' input) :
    op.rename o = op.rename o' := by
  rw [rename, List.map_congr_left h]
  rfl

theorem Alike.outputsLike (h : (op.rename o).Alike copy) : op.OutputsLike copy :=
  ⟨h.outputType.symm, h.isMultiset.symm⟩

end Operator

/-- Kinds of operators in between: neither sources nor sinks. -/
def OperatorKind.IsInternal (kind : OperatorKind) : Prop :=
  kind.isSource = false ∧ kind.isSink = false

namespace Circuit

/-- Places behind an extra operator: from a number on they move on by one. -/
def skip (o : Nat → Nat) (n i : Nat) : Nat := if i < n then o i else o i + 1

/-- **Embedding.** The second circuit is the first one with extra operators in between; the function
says where the operators of the first one stand in the second. -/
inductive Embeds : (Nat → Nat) → Circuit → Circuit → Prop
  | empty (name : String) : Embeds id (.empty name) (.empty name)
  | both {o : Nat → Nat} {t s : Circuit} {op copy : Operator} :
      Embeds o t s → (op.rename o).Alike copy → Embeds o (t.push op) (s.push copy)
  | extra {o : Nat → Nat} {t s : Circuit} {op : Operator} :
      Embeds o t s → op.kind.IsInternal → Embeds (skip o t.size) t (s.push op)

variable {o : Nat → Nat} {t s : Circuit} {op copy : Operator} {i k : Nat}

theorem skip_of_lt {n : Nat} (h : i < n) : skip o n i = o i := if_pos h

theorem push_inj {c c' : Circuit} {op op' : Operator} (h : c.push op = c'.push op') :
    -- the last operators are equal, and with them what stands in front
    c = c' ∧ op = op' := by
  obtain ⟨name, operators⟩ := c
  obtain ⟨name', operators'⟩ := c'
  obtain ⟨rfl, hoperators⟩ := Circuit.mk.inj h
  obtain ⟨rfl, hlast⟩ := List.append_inj' hoperators rfl
  exact ⟨rfl, List.singleton_inj.mp hlast⟩

theorem Ordered.of_push {c : Circuit} (h : (c.push op).Ordered) : c.Ordered :=
  fun id op hget => h id op (get?_push_of_some hget)

namespace Embeds

/-- A circuit is embedded in itself. -/
theorem refl (c : Circuit) : Embeds id c c := by
  induction c using pushRec with
  | empty name => exact .empty name
  | push c op ih =>
    -- the identity renames nothing, and the circuit is taken apart from its end
    have hsame : op.rename id = op := by
      rw [Operator.rename, List.map_id]
      rfl
    exact .both ih (hsame.symm ▸ .refl op)

theorem name_eq (h : Embeds o t s) : s.name = t.name := by
  induction h with
  | empty => rfl
  | both _ _ ih => exact ih
  | extra _ _ ih => exact ih

/-! ### Places -/

/-- Whatever comes next in the smaller circuit comes next in the larger one. -/
theorem place_add (h : Embeds o t s) (k : Nat) : o (t.size + k) = s.size + k := by
  induction h generalizing k with
  | empty => rfl
  | @both o t s op copy _ _ ih =>
    rw [size_push, size_push, Nat.add_assoc, Nat.add_assoc, ih (1 + k)]
  | @extra o t s op _ _ ih =>
    -- behind the extra operator everything moves on by one, what comes next included
    have hge : ¬t.size + k < t.size := by omega
    rw [skip, if_neg hge, ih k, size_push]
    omega

theorem place_size (h : Embeds o t s) : o t.size = s.size := h.place_add 0

/-- Places keep the order. -/
theorem strictMono (h : Embeds o t s) : StrictMono o := by
  induction h with
  | empty => exact strictMono_id
  | both _ _ ih => exact ih
  | @extra o t s op _ _ ih =>
    intro i j hij
    have hlt := ih hij
    -- two places are on the same side of the extra operator, or the later one has moved on
    unfold skip
    split <;> split <;> omega

theorem place_lt_size_iff (h : Embeds o t s) : o i < s.size ↔ i < t.size := by
  rw [← h.place_size]
  exact h.strictMono.lt_iff_lt

/-- **Every operator of the smaller circuit stands in the larger one.** -/
theorem get? (h : Embeds o t s) (ht : t.Ordered) (hop : t.get? i = some op) :
    ∃ copy, s.get? (o i) = some copy ∧ (op.rename o).Alike copy := by
  induction h generalizing i op with
  | empty name => cases hop
  | @both o t s last copy hts halike ih =>
    rcases get?_push_eq_some hop with hold | ⟨rfl, rfl⟩
    · obtain ⟨found, hfound, hfoundAlike⟩ := ih ht.of_push hold
      exact ⟨found, get?_push_of_some hfound, hfoundAlike⟩
    · -- the last operator of both circuits stands where the smaller one ends
      refine ⟨copy, ?_, halike⟩
      rw [hts.place_size, get?_push_size]
  | @extra o t s extra hts _ ih =>
    obtain ⟨copy, hcopy, halike⟩ := ih ht hop
    have hi : i < t.size := lt_size_of_get? hop
    refine ⟨copy, ?_, ?_⟩
    · rw [skip_of_lt hi]
      exact get?_push_of_some hcopy
    · -- its inputs stand in front of it, where nothing has moved
      have hsame : op.rename (skip o t.size) = op.rename o := Operator.rename_congr
        fun input hinput => skip_of_lt (Nat.lt_trans (ht i op hop input hinput) hi)
      rw [hsame]
      exact halike

/-- **Sources and sinks of the larger circuit come from the smaller one.** -/
theorem exists_origin (h : Embeds o t s) (hcopy : s.get? k = some copy)
    (hkind : ¬copy.kind.IsInternal) : ∃ i, i < t.size ∧ o i = k := by
  induction h generalizing k copy with
  | empty name => cases hcopy
  | @both o t s op last hts _ ih =>
    rcases get?_push_eq_some hcopy with hold | ⟨rfl, rfl⟩
    · obtain ⟨i, hi, hik⟩ := ih hold hkind
      exact ⟨i, by rw [size_push]; omega, hik⟩
    · exact ⟨t.size, by rw [size_push]; omega, hts.place_size⟩
  | @extra o t s extra _ hextra ih =>
    rcases get?_push_eq_some hcopy with hold | ⟨rfl, rfl⟩
    · obtain ⟨i, hi, hik⟩ := ih hold hkind
      exact ⟨i, hi, by rw [skip_of_lt hi, hik]⟩
    · -- the extra operator itself is internal and needs no origin
      exact absurd hextra hkind

/-- An operator of the smaller circuit that is neither a source nor a sink counts as an extra one of
the larger. -/
theorem of_push (h : Embeds o (t.push op) s) (hop : op.kind.IsInternal) :
    ∃ o', (∀ i < t.size, o' i = o i) ∧ Embeds o' t s := by
  -- the pushed circuit is generalised, as the embedding is by its last constructor
  generalize ht : t.push op = t' at h
  induction h with
  | empty name => exact absurd (congrArg size ht) (by simp)
  | @both o t' s op' copy hts halike _ =>
    obtain ⟨rfl, rfl⟩ := push_inj ht
    -- the operator had a counterpart, which from now on is an extra one
    refine ⟨skip o t.size, fun i hi => skip_of_lt hi, .extra hts ?_⟩
    unfold OperatorKind.IsInternal
    rw [halike.kind]
    exact hop
  | @extra o t' s extra _ hextra ih =>
    obtain ⟨o', hsame, h'⟩ := ih ht
    -- an extra operator at the end stays one, and the places in front of it are as they were
    subst ht
    refine ⟨skip o' t.size, fun i hi => ?_, .extra h' hextra⟩
    rw [skip_of_lt hi, skip_of_lt (by rw [size_push]; omega), hsame i hi]

/-! ### Insertions -/

/-- A table has a source in both circuits or in neither. -/
theorem source?_eq_none_iff (h : Embeds o t s) (ht : t.Ordered) (table : String) :
    t.source? table = none ↔ s.source? table = none := by
  rw [source?_eq_none, source?_eq_none]
  constructor
  · -- a source of the larger circuit has an origin, whose kind is its own
    intro hnone copy hmem htable
    obtain ⟨k, hk⟩ := List.mem_iff_getElem?.mp hmem
    have hsource : ¬copy.kind.IsInternal := fun hinternal => by
      cases (OperatorKind.table?_of_isSource hinternal.1).symm.trans htable
    obtain ⟨i, hi, rfl⟩ := h.exists_origin hk hsource
    obtain ⟨op, hop⟩ := exists_get?_of_lt hi
    obtain ⟨copy', hcopy', halike⟩ := h.get? ht hop
    obtain rfl := Option.some.inj (hcopy'.symm.trans hk)
    have hkind : copy'.kind = op.kind := halike.kind
    rw [hkind] at htable
    exact hnone op (List.mem_of_getElem? hop) htable
  · intro hnone op hmem htable
    obtain ⟨i, hop⟩ := List.mem_iff_getElem?.mp hmem
    obtain ⟨copy, hcopy, halike⟩ := h.get? ht hop
    have hkind : copy.kind = op.kind := halike.kind
    rw [← hkind] at htable
    exact hnone copy (List.mem_of_getElem? hcopy) htable

/-- **Derivations agree.** What is derived in the smaller circuit is derived, over the renamed
inputs, in the larger one, and nothing else is. -/
theorem derive_eq_ok_iff (h : Embeds o t s) (ht : t.Ordered) {kind : OperatorKind}
    {inputs : List OperatorId} {function : Option Expr} {r : Ty × Bool} :
    t.derive kind inputs function = .ok r ↔
      s.derive kind (inputs.map o) function = .ok r := by
  constructor
  · intro hderive
    refine derive_congr (List.forall₂_map_right_iff.mpr (List.forall₂_same.mpr ?_)) ?_ hderive
    -- the inputs exist, and their images are alike
    · intro input hinput
      obtain ⟨op, hop⟩ := exists_input_of_derive hderive hinput
      obtain ⟨copy, hcopy, halike⟩ := h.get? ht hop
      exact ⟨op, copy, hop, hcopy, halike.outputsLike⟩
    · intro table htable
      exact (h.source?_eq_none_iff ht table).mp (source?_eq_none_of_derive hderive htable)
  · intro hderive
    refine derive_congr (List.forall₂_map_left_iff.mpr (List.forall₂_same.mpr ?_)) ?_ hderive
    · -- an input of the larger derivation is the image of one, so it exists in the smaller circuit
      intro input hinput
      obtain ⟨copy, hcopy⟩ := exists_input_of_derive hderive (List.mem_map_of_mem hinput)
      have hlt : input < t.size := h.place_lt_size_iff.mp (lt_size_of_get? hcopy)
      obtain ⟨op, hop⟩ := exists_get?_of_lt hlt
      obtain ⟨copy', hcopy', halike⟩ := h.get? ht hop
      obtain rfl := Option.some.inj (hcopy'.symm.trans hcopy)
      exact ⟨copy', op, hcopy, hop, halike.outputsLike.1.symm, halike.outputsLike.2.symm⟩
    · intro table htable
      exact (h.source?_eq_none_iff ht table).mpr (source?_eq_none_of_derive hderive htable)

end Embeds
end Circuit
end DeltaCircuit
