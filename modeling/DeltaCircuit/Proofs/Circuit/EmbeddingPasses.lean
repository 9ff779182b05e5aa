import DeltaCircuit.Circuit.Pass.Manager
import DeltaCircuit.Proofs.Circuit.Embedding
import DeltaCircuit.Proofs.Circuit.Incremented
import DeltaCircuit.Proofs.Circuit.RemoveOperators
import Mathlib.Data.List.Sort

/-!
# Passes forget extra operators

A circuit with extra operators in between stays one under simplification and incrementalization.
Removing dead code leaves nothing of them: no sink reads an extra operator, since everything that an
operator of the smaller circuit reads comes from the smaller circuit, and the ids of what is left
are its places in a list that is the same for both.

* `Circuit.Embeds.simplifiedFrom`, `Circuit.Embeds.incremented` — the embeddings that the passes
  keep.
* `Circuit.Embeds.removeDeadCode` — the same circuit is left of both.
-/

namespace DeltaCircuit

/-- **Alike circuits.** The same name and alike operators at the same ids. -/
structure Circuit.Alike (t s : Circuit) : Prop where
  name : s.name = t.name
  operators : List.Forall₂ Operator.Alike t.operators s.operators

/-- Alike operators get alike functions. -/
theorem Operator.Alike.simplified {op copy : Operator} (h : op.Alike copy)
    (number number' : Nat) : (op.simplified number).Alike (copy.simplified number') where
  kind := h.kind
  inputs := h.inputs
  function := by
    have hfunction := h.function
    show Option.Rel Expr.Alike (op.function.map _) (copy.function.map _)
    generalize op.function = f, copy.function = f' at hfunction ⊢
    cases hfunction with
    | none => exact .none
    | some halike => exact .some (halike.simplified number number')
  outputType := h.outputType
  isMultiset := h.isMultiset

namespace Circuit

variable {o : Nat → Nat} {t s : Circuit} {op copy : Operator} {i j k : Nat}

/-! ### Simplification -/

/-- **Simplified functions.** Operators keep their places, so the embedding stays the same. -/
theorem Embeds.simplifiedFrom (h : Embeds o t s) (number number' : Nat) :
    Embeds o (t.simplifiedFrom number) (s.simplifiedFrom number') := by
  induction h with
  | empty name => exact .empty name
  | @both o t s op copy _ halike ih =>
    rw [simplifiedFrom_push, simplifiedFrom_push]
    exact .both ih (halike.simplified _ _)
  | @extra o t s extra _ hextra ih =>
    have hinternal : (extra.simplified (number' + s.size)).kind.IsInternal := hextra
    have hnext := Embeds.extra ih hinternal
    rw [size_simplifiedFrom] at hnext
    rw [simplifiedFrom_push]
    exact hnext

/-! ### Incrementalization -/

theorem Incremented.place_of_lt {r : Incremented} {c : Circuit} {p : Nat}
    (h : i < r.places.length) : Incremented.place ⟨c, r.places ++ [p]⟩ i = r.place i := by
  simp [place, List.getElem?_append_left h]

theorem Incremented.place_length {r : Incremented} {c : Circuit} {p : Nat} :
    Incremented.place ⟨c, r.places ++ [p]⟩ r.places.length = p := by
  simp [place]

/-- What stands for an old operator is an operator of the new circuit. -/
theorem place_lt_size {c : Circuit} (hi : i < c.size) :
    c.incremented.place i < c.incremented.circuit.size := by
  induction c using pushRec generalizing i with
  | empty name => exact absurd hi (Nat.not_lt_zero i)
  | push c op ih =>
    have hlength := length_places c
    -- old places stay, and the new one is the last
    have hnext : ∀ (c' : Circuit) (p : Nat), c.incremented.circuit.size ≤ c'.size → p < c'.size →
        Incremented.place ⟨c', c.incremented.places ++ [p]⟩ i < c'.size := by
      intro c' p hsize hp
      rw [size_push] at hi
      rcases Nat.lt_succ_iff_lt_or_eq.mp hi with hlt | rfl
      · rw [Incremented.place_of_lt (hlength ▸ hlt)]
        exact Nat.lt_of_lt_of_le (ih hlt) hsize
      · rw [← hlength, Incremented.place_length]
        exact hp
    rw [incremented_push]
    unfold Incremented.next
    split
    · exact hnext _ _ (by simp only [size_push]; omega) (by simp only [size_push]; omega)
    · split
      · exact hnext _ _ (by simp only [size_push]; omega) (by simp only [size_push]; omega)
      · exact hnext _ _ (by simp only [size_push]; omega) (by simp only [size_push]; omega)

theorem Built.of_push (h : (t.push op).Built) : t.Built := by
  generalize hpush : t.push op = c at h
  cases h with
  | empty name => exact absurd (congrArg size hpush) (by simp)
  | insert hc hinsert =>
    obtain ⟨-, hr⟩ := insert_eq_ok.mp hinsert
    obtain ⟨rfl, -⟩ := Prod.mk.inj hr
    obtain ⟨rfl, -⟩ := push_inj hpush
    exact hc

/-- An embedding of incremental circuits under which what stands for an operator in the smaller one
goes to what stands for it in the larger one. -/
structure IncrementedEmbeds (o : Nat → Nat) (t s : Circuit) (o' : Nat → Nat) (t' s' : Incremented) :
    Prop where
  embeds : Embeds o' t'.circuit s'.circuit
  place : ∀ i < t.size, o' (t'.place i) = s'.place (o i)

/-- What an operator becomes in front of which the circuits correspond. -/
theorem IncrementedEmbeds.both {o' : Nat → Nat}
    (h : IncrementedEmbeds o t s o' t.incremented s.incremented) (hts : Embeds o t s)
    (hbuilt : (t.push op).Built) (halike : (op.rename o).Alike copy) :
    IncrementedEmbeds o (t.push op) (s.push copy) o' (t.incremented.next op)
      (s.incremented.next copy) := by
  have hkind : copy.kind = op.kind := halike.kind
  have hlast := get?_push_size t op
  have hlength := length_places t
  have hlength' := length_places s
  have hend := h.embeds.place_size
  -- the inputs of the copy stand where the inputs of the operator go
  have hinputs : copy.inputs.map s.incremented.place =
      (op.inputs.map t.incremented.place).map o' := by
    have hcopy : copy.inputs = op.inputs.map o := halike.inputs
    rw [hcopy, List.map_map, List.map_map]
    refine List.map_congr_left fun input hinput => ?_
    exact (h.place input (hbuilt.ordered _ _ hlast input hinput)).symm
  -- the last places correspond if they are given correspondingly
  have hplace : ∀ (t' s' : Circuit) (p q : Nat), o' p = q → ∀ i < (t.push op).size,
      o' (Incremented.place ⟨t', t.incremented.places ++ [p]⟩ i) =
        Incremented.place ⟨s', s.incremented.places ++ [q]⟩ (o i) := by
    intro t' s' p q hpq i hi
    rw [size_push] at hi
    rcases Nat.lt_succ_iff_lt_or_eq.mp hi with hlt | rfl
    · have hlt' : o i < s.size := hts.place_lt_size_iff.mpr hlt
      rw [Incremented.place_of_lt (by rw [hlength]; exact hlt),
        Incremented.place_of_lt (by rw [hlength']; exact hlt'), h.place i hlt]
    · rw [hts.place_size, ← hlength, ← hlength', Incremented.place_length,
        Incremented.place_length, hpq]
  by_cases hsource : op.kind.isSource = true
  · have hnone : op.inputs = [] := hbuilt.source_inputs hlast hsource
    have hrename : op.rename o' = op.rename o :=
      Operator.rename_congr fun input hinput => absurd hinput (by simp [hnone])
    have hcopied := Embeds.both h.embeds (hrename ▸ halike)
    have hintegral : ((relay .integral t.incremented.circuit.size op).rename o').Alike
        (relay .integral s.incremented.circuit.size copy) :=
      ⟨rfl, congrArg ([·]) hend.symm, .none, halike.outputType, halike.isMultiset⟩
    rw [Incremented.next_of_source hsource, Incremented.next_of_source (hkind ▸ hsource)]
    exact ⟨.both hcopied hintegral, hplace _ _ _ _ (h.embeds.place_add 1)⟩
  · by_cases hsink : op.kind.isSink = true
    · have hdifference : ((t.incremented.difference op).rename o').Alike
          (s.incremented.difference copy) :=
        ⟨rfl, hinputs, .none, halike.outputType, halike.isMultiset⟩
      have hread : ((op.withInputs [t.incremented.circuit.size]).rename o').Alike
          (copy.withInputs [s.incremented.circuit.size]) := by
        rw [← hend]
        exact halike.withInputs _
      rw [Incremented.next_of_sink hsink, Incremented.next_of_sink (hkind ▸ hsink)]
      exact ⟨.both (.both h.embeds hdifference) hread, hplace _ _ _ _ (h.embeds.place_add 1)⟩
    · have hcopied : ((op.withInputs (op.inputs.map t.incremented.place)).rename o').Alike
          (copy.withInputs (copy.inputs.map s.incremented.place)) := by
        rw [hinputs]
        exact halike.withInputs _
      rw [Bool.not_eq_true] at hsource hsink
      rw [Incremented.next_of_copy hsource hsink,
        Incremented.next_of_copy (hkind ▸ hsource) (hkind ▸ hsink)]
      exact ⟨.both h.embeds hcopied, hplace _ _ _ _ hend⟩

/-- **Incremental circuits.** The incremental circuit of the smaller circuit is embedded in that of
the larger one. -/
theorem Embeds.incremented (h : Embeds o t s) (ht : t.Built) :
    ∃ o', IncrementedEmbeds o t s o' t.incremented s.incremented := by
  induction h with
  | empty name => exact ⟨id, .empty name, fun i hi => absurd hi (Nat.not_lt_zero i)⟩
  | @both o t s op copy hts halike ih =>
    obtain ⟨o', h'⟩ := ih ht.of_push
    rw [incremented_push, incremented_push]
    exact ⟨o', h'.both hts ht halike⟩
  | @extra o t s extra hts hextra ih =>
    obtain ⟨o', h'⟩ := ih ht
    refine ⟨skip o' t.incremented.circuit.size, ?_, fun i hi => ?_⟩
    · rw [incremented_push, Incremented.next_of_copy hextra.1 hextra.2]
      exact .extra h'.embeds hextra
    · have hlt : o i < s.incremented.places.length := by
        rw [length_places]
        exact hts.place_lt_size_iff.mpr hi
      rw [incremented_push, Incremented.next_of_copy hextra.1 hextra.2, skip_of_lt hi,
        skip_of_lt (place_lt_size hi), h'.place i hi, Incremented.place_of_lt hlt]

/-! ### Dead code -/

namespace Embeds

/-- Reading through no-ops is the same in both circuits. -/
theorem resolves (h : Embeds o t s) (ht : t.Ordered) (hij : t.Resolves i j) :
    s.Resolves (o i) (o j) := by
  induction hij with
  | here hop hnoop =>
    obtain ⟨copy, hcopy, halike⟩ := h.get? ht hop
    have hkind : copy.kind = _ := halike.kind
    exact .here hcopy (hkind ▸ hnoop)
  | noop hop hnoop hinputs _ ih =>
    obtain ⟨copy, hcopy, halike⟩ := h.get? ht hop
    have hkind : copy.kind = _ := halike.kind
    refine .noop hcopy (hkind ▸ hnoop) ?_ ih
    rw [halike.inputs, Operator.rename, Operator.withInputs, hinputs]
    rfl

/-- What the sinks of the smaller circuit need, those of the larger one need. -/
theorem mem_ancestors_of_mem (h : Embeds o t s) (ht : t.Ordered) (hs : s.Ordered)
    (hi : i ∈ t.ancestors t.sinks) : o i ∈ s.ancestors s.sinks := by
  refine ancestors_induction (P := fun i => o i ∈ s.ancestors s.sinks) ?_ ?_ hi
  · intro i hroot hlt
    obtain ⟨op, hop, hsink⟩ := exists_of_mem_sinks hroot
    obtain ⟨copy, hcopy, halike⟩ := h.get? ht hop
    have hkind : copy.kind = op.kind := halike.kind
    exact mem_ancestors_of_root (mem_sinks hcopy (hkind ▸ hsink)) (h.place_lt_size_iff.mpr hlt)
  · intro i op hop hmem input hinput
    obtain ⟨copy, hcopy, halike⟩ := h.get? ht hop
    refine mem_ancestors_of_input hs hcopy hmem ?_
    rw [halike.inputs]
    exact List.mem_map_of_mem hinput

/-- **No sink needs an extra operator.** What the sinks of the larger circuit need comes from the
smaller one, whose sinks need it. -/
theorem exists_of_mem_ancestors (h : Embeds o t s) (ht : t.Ordered)
    (hk : k ∈ s.ancestors s.sinks) : ∃ i ∈ t.ancestors t.sinks, o i = k := by
  refine ancestors_induction (P := fun k => ∃ i ∈ t.ancestors t.sinks, o i = k) ?_ ?_ hk
  · intro k hroot _
    obtain ⟨copy, hcopy, hsink⟩ := exists_of_mem_sinks hroot
    obtain ⟨i, hi, rfl⟩ := h.exists_origin hcopy fun hinternal => by
      rw [hinternal.2] at hsink
      cases hsink
    obtain ⟨op, hop⟩ := exists_get?_of_lt hi
    obtain ⟨copy', hcopy', halike⟩ := h.get? ht hop
    obtain rfl := Option.some.inj (hcopy'.symm.trans hcopy)
    have hkind : copy'.kind = op.kind := halike.kind
    exact ⟨i, mem_ancestors_of_root (mem_sinks hop (hkind ▸ hsink)) hi, rfl⟩
  · rintro _ copy hcopy ⟨i, hi, rfl⟩ input hinput
    obtain ⟨op, hop⟩ := exists_get?_of_lt (mem_ancestors.mp hi).1
    obtain ⟨copy', hcopy', halike⟩ := h.get? ht hop
    obtain rfl := Option.some.inj (hcopy'.symm.trans hcopy)
    rw [halike.inputs] at hinput
    change input ∈ op.inputs.map o at hinput
    obtain ⟨origin, horigin, rfl⟩ := List.mem_map.mp hinput
    exact ⟨origin, mem_ancestors_of_input ht hop hi horigin, rfl⟩

theorem sorted_kept (c : Circuit) (keep : List OperatorId) (n : Nat) :
    (c.kept keep n).Pairwise (· < ·) :=
  List.Pairwise.filter _ List.pairwise_lt_range

/-- **What is kept.** The operators that are kept of the larger circuit are those that are kept of
the smaller one. -/
theorem kept_eq (h : Embeds o t s) (ht : t.Ordered) (hs : s.Ordered) :
    s.kept (s.ancestors s.sinks) s.size = (t.kept (t.ancestors t.sinks) t.size).map o := by
  have hmap : ((t.kept (t.ancestors t.sinks) t.size).map o).Pairwise (· < ·) :=
    List.pairwise_map.mpr ((sorted_kept t _ _).imp fun hlt => h.strictMono hlt)
  -- both lists are sorted, so it is enough that they have the same members
  refine (sorted_kept s _ _).eq_of_mem_iff hmap fun k => ?_
  rw [List.mem_map]
  constructor
  · intro hk
    obtain ⟨copy, hcopy⟩ := exists_get?_of_lt (lt_of_mem_kept hk)
    obtain ⟨-, hneeded, hnoop⟩ := (mem_kept hcopy).mp hk
    obtain ⟨i, hi, rfl⟩ := h.exists_of_mem_ancestors ht hneeded
    have hlt := (mem_ancestors.mp hi).1
    obtain ⟨op, hop⟩ := exists_get?_of_lt hlt
    obtain ⟨copy', hcopy', halike⟩ := h.get? ht hop
    obtain rfl := Option.some.inj (hcopy'.symm.trans hcopy)
    have hkind : copy'.kind = op.kind := halike.kind
    exact ⟨i, (mem_kept hop).mpr ⟨hlt, hi, hkind ▸ hnoop⟩, rfl⟩
  · rintro ⟨i, hi, rfl⟩
    obtain ⟨op, hop⟩ := exists_get?_of_lt (lt_of_mem_kept hi)
    obtain ⟨hlt, hneeded, hnoop⟩ := (mem_kept hop).mp hi
    obtain ⟨copy, hcopy, halike⟩ := h.get? ht hop
    have hkind : copy.kind = op.kind := halike.kind
    exact (mem_kept hcopy).mpr ⟨h.place_lt_size_iff.mpr hlt,
      h.mem_ancestors_of_mem ht hs hneeded, hkind ▸ hnoop⟩

/-- Corresponding inputs resolve to the same places among what is kept. -/
theorem inputs_eq (h : Embeds o t s) (ht : t.Ordered) {origins old new new' : List OperatorId}
    (hnodup : origins.Nodup)
    (hnew : List.Forall₂ (fun input new => ∃ i, t.Resolves input i ∧ origins[new]? = some i) old
      new)
    (hnew' : List.Forall₂ (fun input new => ∃ i, s.Resolves input i ∧
      (origins.map o)[new]? = some i) (old.map o) new') : new = new' := by
  induction hnew generalizing new' with
  | nil =>
    cases hnew'
    rfl
  | @cons input place _ _ hplace _ ih =>
    obtain _ | ⟨hplace', hrest'⟩ := hnew'
    obtain ⟨j, hj, hfound⟩ := hplace
    obtain ⟨j', hj', hfound'⟩ := hplace'
    obtain rfl := hj'.unique (h.resolves ht hj)
    rw [List.getElem?_map] at hfound'
    obtain ⟨origin, horigin, hsame⟩ := Option.map_eq_some_iff.mp hfound'
    obtain rfl := h.strictMono.injective hsame
    have hsame := (List.getElem?_inj (List.getElem?_eq_some_iff.mp hfound).1 hnodup).mp
      (hfound.trans horigin.symm)
    rw [hsame, ih hrest']

/-- Copies of corresponding operators are alike: they read the same places among what is kept. -/
theorem alike_of_copyOf (h : Embeds o t s) (ht : t.Ordered) {origins : List OperatorId}
    (hnodup : origins.Nodup) {op' copy' : Operator} (hop' : t.CopyOf origins i op')
    (hcopy' : s.CopyOf (origins.map o) (o i) copy') : op'.Alike copy' := by
  obtain ⟨op, inputs, hop, rfl, hinputs⟩ := hop'
  obtain ⟨copy, inputs', hcopy, rfl, hinputs'⟩ := hcopy'
  obtain ⟨found, hfound, halike⟩ := h.get? ht hop
  obtain rfl := Option.some.inj (hfound.symm.trans hcopy)
  rw [halike.inputs] at hinputs'
  obtain rfl := h.inputs_eq ht hnodup hinputs hinputs'
  exact ⟨halike.kind, rfl, halike.function, halike.outputType, halike.isMultiset⟩

/-- **Dead-code removal forgets extra operators.** It goes through on both circuits and leaves the
same. -/
theorem removeDeadCode (h : Embeds o t s) (ht : t.Built) (hs : s.Built) :
    ∃ t' s', t.removeDeadCode = .ok t' ∧ s.removeDeadCode = .ok s' ∧ t'.Alike s' := by
  obtain ⟨t', htrun, -, htname, htcopies⟩ :=
    ht.removeOperators (supports_ancestors ht.ordered t.sinks)
  obtain ⟨s', hsrun, -, hsname, hscopies⟩ :=
    hs.removeOperators (supports_ancestors hs.ordered s.sinks)
  refine ⟨t', s', htrun, hsrun, by rw [hsname, htname, h.name_eq], ?_⟩
  rw [h.kept_eq ht.ordered hs.ordered, List.forall₂_map_left_iff] at hscopies
  have hnodup := nodup_kept t (t.ancestors t.sinks) t.size
  refine List.forall₂_iff_get.mpr ⟨?_, fun n hn hn' => ?_⟩
  · rw [← htcopies.length_eq, hscopies.length_eq]
  · have hlt : n < (t.kept (t.ancestors t.sinks) t.size).length := by
      rw [htcopies.length_eq]
      exact hn
    exact h.alike_of_copyOf ht.ordered hnodup (htcopies.get hlt hn) (hscopies.get hlt hn')

end Embeds
end Circuit
end DeltaCircuit
