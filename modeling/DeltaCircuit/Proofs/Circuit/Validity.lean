import DeltaCircuit.Circuit.Pass.Manager
import DeltaCircuit.Proofs.Circuit.Incremented
import DeltaCircuit.Proofs.Circuit.RemoveOperators
import DeltaCircuit.Proofs.Circuit.SimplifyFunctions

/-!
# Passes on valid circuits

A pass puts operators into a new circuit, which checks each of them as if it had been put there by
hand. No pass is ever refused one on a valid circuit, and none loses or changes a sink.

* `Circuit.Valid` — insertions have built the circuit, and the constructors its functions.
* `Circuit.sinkHeaders` — the sinks, in order, with what they are called and the type they show.
* `Circuit.Renews` — what the result of a pass has to do with the circuit.
* `Circuit.Valid.run_pass` — every pass goes through and renews the circuit.
-/

namespace List

/-- Related lists give the same through functions that agree on related items. -/
theorem Forall₂.filterMap_eq {α β γ : Type} {R : α → β → Prop} {f : α → Option γ}
    {g : β → Option γ} {as : List α} {bs : List β} (h : Forall₂ R as bs)
    (hfg : ∀ a b, R a b → g b = f a) : bs.filterMap g = as.filterMap f := by
  induction h with
  | nil => rfl
  | cons hab _ ih => rw [filterMap_cons, filterMap_cons, ih, hfg _ _ hab]

end List

namespace DeltaCircuit

/-- What is known of a sink from outside. -/
structure SinkHeader where
  name : String
  query : String
  comment : Option String
  type : Ty

/-- The header of a sink. -/
def Operator.sinkHeader? (op : Operator) : Option SinkHeader :=
  match op.kind with
  | .sink name query comment => some ⟨name, query, comment, op.outputType⟩
  | _ => none

namespace Circuit

/-- **Valid circuits.** Insertions have built the circuit, and the constructors its functions. -/
structure Valid (c : Circuit) : Prop where
  built : c.Built
  functions : c.EveryFunction Expr.Built

/-- The headers of the sinks, in order. -/
def sinkHeaders (c : Circuit) : List SinkHeader := c.operators.filterMap Operator.sinkHeader?

/-- What becomes of a valid circuit: a valid one of the same name with the same sinks, into which
every operator can be inserted again in turn. -/
structure Renews (c c' : Circuit) : Prop where
  valid : c'.Valid
  name_eq : c'.name = c.name
  sinks_eq : c'.sinkHeaders = c.sinkHeaders
  inserts : ∀ (id : Nat) op, c'.get? id = some op →
    (c'.take id).insert op = .ok (c'.take (id + 1), id)

variable {c c' : Circuit} {op : Operator}

/-! ### Insertions -/

/-- The operators of a built circuit can be inserted in turn. -/
theorem Built.insert_take (hc : c.Built) {id : Nat} (hop : c.get? id = some op) :
    (c.take id).insert op = .ok (c.take (id + 1), id) := by
  have hsize : (c.take id).size = id := size_take (Nat.le_of_lt (lt_size_of_get? hop))
  refine insert_eq_ok.mpr ⟨hc.derive_take hop, ?_⟩
  rw [take_succ hop, hsize]

theorem Valid.renews (hname : c'.name = c.name) (hsinks : c'.sinkHeaders = c.sinkHeaders)
    (hc' : c'.Valid) : c.Renews c' :=
  ⟨hc', hname, hsinks, fun _ _ hop => hc'.built.insert_take hop⟩

/-! ### Headers of longer circuits -/

theorem sinkHeaders_push (c : Circuit) (op : Operator) :
    (c.push op).sinkHeaders = c.sinkHeaders ++ op.sinkHeader?.toList := by
  unfold sinkHeaders push
  rw [List.filterMap_append]
  cases hheader : op.sinkHeader? <;> simp [hheader]

theorem sinkHeader?_of_isSink (h : op.kind.isSink = false) : op.sinkHeader? = none := by
  unfold Operator.sinkHeader?
  cases hkind : op.kind with
  | sink name query comment =>
    rw [hkind] at h
    cases h
  | _ => rfl

/-! ### The passes -/

theorem sinkHeaders_simplifiedFrom (c : Circuit) (number : Nat) :
    (c.simplifiedFrom number).sinkHeaders = c.sinkHeaders := by
  induction c using pushRec with
  | empty name => rfl
  | push c op ih =>
    rw [simplifiedFrom_push, sinkHeaders_push, sinkHeaders_push, ih]
    rfl

/-- **Simplifying functions** goes through if no assignment goes to a tuple constructor. -/
theorem Valid.simplifyFunctions (hc : c.Valid) (hplain : c.EveryFunction Expr.PlainTargets) :
    ∃ c', c.simplifyFunctions = .ok c' ∧ c.Renews c' := by
  have hsimplifiable : c.EveryFunction Expr.Simplifiable := fun op hop f hf =>
    ⟨hc.functions op hop f hf, hplain op hop f hf⟩
  obtain ⟨hpass, hbuilt⟩ := hc.built.simplifyFunctions hsimplifiable
  refine ⟨_, hpass, Valid.renews rfl (sinkHeaders_simplifiedFrom c _) ⟨hbuilt, ?_⟩⟩
  exact fun op hop f hf => (hsimplifiable.simplifiedFrom _ op hop f hf).built

theorem name_incremented (c : Circuit) : c.incremented.circuit.name = c.name := by
  induction c using pushRec with
  | empty name => rfl
  | push c op ih =>
    rw [incremented_push, name_push, ← ih]
    unfold Incremented.next
    split
    · rfl
    · split <;> rfl

theorem sinkHeaders_incremented (c : Circuit) :
    c.incremented.circuit.sinkHeaders = c.sinkHeaders := by
  induction c using pushRec with
  | empty name => rfl
  | push c op ih =>
    rw [incremented_push, sinkHeaders_push, ← ih]
    -- neither an integral nor a differential is a sink
    have hrelay : ∀ kind input other, OperatorKind.isSink kind = false →
        (relay kind input other).sinkHeader? = none := fun kind input other h =>
      sinkHeader?_of_isSink h
    cases hsource : op.kind.isSource with
    | true =>
      rw [Incremented.next_of_source hsource, sinkHeaders_push, sinkHeaders_push,
        hrelay _ _ _ rfl, Option.toList_none, List.append_nil]
    | false =>
      cases hsink : op.kind.isSink with
      | true =>
        have hdifference : (c.incremented.difference op).sinkHeader? = none :=
          sinkHeader?_of_isSink rfl
        rw [Incremented.next_of_sink hsink, sinkHeaders_push, sinkHeaders_push, hdifference,
          Option.toList_none, List.append_nil]
        rfl
      | false =>
        rw [Incremented.next_of_copy hsource hsink, sinkHeaders_push]
        rfl

theorem EveryFunction.incremented {P : Expr → Prop} (h : c.EveryFunction P) :
    c.incremented.circuit.EveryFunction P := by
  induction c using pushRec with
  | empty name => exact h
  | push c op ih =>
    obtain ⟨hfront, hop⟩ := h.of_push
    have ih := ih hfront
    rw [incremented_push]
    unfold Incremented.next
    split
    · exact (ih.push hop).push fun f hf => by cases hf
    · split
      · exact (ih.push fun f hf => by cases hf).push hop
      · exact ih.push hop

/-- **Incrementalizing** goes through on every valid circuit. -/
theorem Valid.incrementalize (hc : c.Valid) : ∃ c', c.incrementalize = .ok c' ∧ c.Renews c' := by
  obtain ⟨hpass, hbuilt⟩ := hc.built.incrementalize_eq
  exact ⟨_, hpass, Valid.renews (name_incremented c) (sinkHeaders_incremented c)
    ⟨hbuilt, hc.functions.incremented⟩⟩

theorem sinkHeaders_eq_range (c : Circuit) :
    c.sinkHeaders = (List.range c.size).filterMap fun id =>
      (c.get? id).bind Operator.sinkHeader? :=
  filterMap_eq_range _ _

/-- If every sink is kept, the copies have the headers of the old sinks. -/
theorem sinkHeaders_of_copies {keep : List OperatorId}
    (hcopies : List.Forall₂ (c.CopyOf (c.kept keep c.size)) (c.kept keep c.size) c'.operators)
    (hsinks : ∀ (id : Nat) op, c.get? id = some op → op.kind.isSink = true → id ∈ keep) :
    c'.sinkHeaders = c.sinkHeaders := by
  have hcopy : c'.sinkHeaders = (c.kept keep c.size).filterMap fun id =>
      (c.get? id).bind Operator.sinkHeader? := by
    refine hcopies.filterMap_eq fun old copy hcopy => ?_
    obtain ⟨op, inputs, hop, rfl, -⟩ := hcopy
    rw [hop]
    rfl
  -- what is left out of the old circuit is no sink
  have hleft : ∀ id ∈ List.range c.size,
      (if keep.contains id && !(c.get? id).any (·.kind.isNoop) then
        (c.get? id).bind Operator.sinkHeader? else none) =
      (c.get? id).bind Operator.sinkHeader? := by
    intro id _
    split
    · rfl
    · next hout =>
      cases hop : c.get? id with
      | none => rfl
      | some op =>
        cases hsink : op.kind.isSink with
        | false => rw [Option.bind_some, sinkHeader?_of_isSink hsink]
        | true =>
          have hnoop : op.kind.isNoop = false := by
            cases hkind : op.kind with
            | noop =>
              rw [hkind] at hsink
              cases hsink
            | _ => rfl
          simp [hop, hsinks id op hop hsink, hnoop] at hout
  rw [hcopy, sinkHeaders_eq_range, kept, List.filterMap_filter, List.filterMap_congr hleft]

/-- **Removing dead code** goes through on every valid circuit. -/
theorem Valid.removeDeadCode (hc : c.Valid) : ∃ c', c.removeDeadCode = .ok c' ∧ c.Renews c' := by
  obtain ⟨c', hpass, hbuilt, hname, hcopies⟩ :=
    hc.built.removeOperators (supports_ancestors hc.built.ordered c.sinks)
  have hsinks : c'.sinkHeaders = c.sinkHeaders :=
    sinkHeaders_of_copies hcopies fun id op hop hsink =>
      mem_ancestors_of_root (mem_sinks hop hsink) (lt_size_of_get? hop)
  refine ⟨c', hpass, Valid.renews hname hsinks ⟨hbuilt, fun copy hcopy f hf => ?_⟩⟩
  -- the function of a copy is that of an old operator
  obtain ⟨old, -, op, inputs, hop, rfl, -⟩ := hcopies.exists_of_mem_right hcopy
  exact hc.functions op (List.mem_of_getElem? hop) f hf

/-- **No pass refuses a valid circuit.** Incrementalizing and removing dead code go through on every
valid circuit, and simplifying functions on those in which no assignment goes to an expression with
a tuple constructor. The result is a valid circuit of the same name and with the same sinks, and
each of its operators passes the checks of an insertion behind those in front of it. -/
theorem Valid.run_pass (hc : c.Valid) (pass : Pass)
    (hplain : pass = .simplifyFunctions → c.EveryFunction Expr.PlainTargets) :
    ∃ c', pass.run c = .ok c' ∧ c.Renews c' := by
  cases pass with
  | simplifyFunctions => exact hc.simplifyFunctions (hplain rfl)
  | deadCode => exact hc.removeDeadCode
  | incrementalize => exact hc.incrementalize

/-- The function `|row| { let mut seen = false; seen = true as bool; seen && true }`. -/
def remembering : Expr :=
  .ofForm (some (.function (some .bool) [.byRef .bool]))
    (.closure [.named "row" (.byRef .bool)] Expr.accumulator)

/-- The rows of a table for which something has been seen. -/
def seenRows : Circuit :=
  (((empty "seen").push ⟨.source "t" .bool, [], none, .zset .bool, true⟩).push
    ⟨.filter, [0], some remembering, .zset .bool, true⟩).push
    ⟨.sink "v" "" none, [1], none, .zset .bool, true⟩

theorem valid_seenRows : seenRows.Valid where
  built := .push (.push (.push (.empty _) rfl) rfl) rfl
  functions := by
    have hbuilt : remembering.Built := .of_parts rfl Expr.built_accumulator
    exact ((EveryFunction.push nofun nofun).push fun f hf => by
      obtain rfl := Option.some.inj hf
      exact hbuilt).push nofun

theorem plainTargets_seenRows : seenRows.EveryFunction Expr.PlainTargets := by
  have haccumulator : Expr.accumulator.PlainTargets := by
    refine Expr.everywhere_accumulator (fun _ => nofun) nofun nofun ?_ nofun nofun
    intro target value hassign
    obtain ⟨rfl, -⟩ := Form.assign.inj hassign
    exact .leaf rfl rfl
  have hplain : remembering.PlainTargets := .of_parts nofun haccumulator
  exact ((EveryFunction.push nofun nofun).push fun f hf => by
    obtain rfl := Option.some.inj hf
    exact hplain).push nofun

/-- A filter whose function assigns to a variable can be simplified. -/
theorem run_pass_seenRows : seenRows.Valid ∧ seenRows.EveryFunction Expr.PlainTargets ∧
    ∃ c', Pass.simplifyFunctions.run seenRows = .ok c' ∧ seenRows.Renews c' :=
  ⟨valid_seenRows, plainTargets_seenRows,
    valid_seenRows.run_pass .simplifyFunctions fun _ => plainTargets_seenRows⟩

end Circuit
end DeltaCircuit
