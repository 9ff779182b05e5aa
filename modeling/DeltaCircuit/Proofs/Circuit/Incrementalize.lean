import DeltaCircuit.Proofs.Circuit.Incremented
import DeltaCircuit.Proofs.Circuit.Trace

/-!
# What incrementalization builds

If no operator reads a sink, every old stream is still found in the incremental circuit, and the
sinks show how the old ones change.

* `Circuit.FoundAt` — every old operator has a place in the new circuit at which its stream is
  found: the integral of a source, what a sink reads, and otherwise the operator that stands for it.
* `Circuit.Differentiates` — what a new sink has to do with an old one.
* `Circuit.Incremented.Finds` — the places in a circuit that is being made incremental, and
  `Circuit.Built.incrementalize` what follows about the result.
-/

namespace DeltaCircuit
namespace Circuit

variable {c out : Circuit} {places : List Nat} {op : Operator} {id : Nat}

/-- No operator reads a sink. -/
def SinksUnread (c : Circuit) : Prop :=
  ∀ op ∈ c.operators, ∀ input ∈ op.inputs, ∀ other ∈ c.get? input, other.kind.isSink = false

instance (c : Circuit) : Decidable c.SinksUnread :=
  inferInstanceAs (Decidable (∀ op ∈ c.operators, ∀ input ∈ op.inputs, ∀ other ∈ c.get? input,
    other.kind.isSink = false))

/-! ### Where old streams are found -/

/-- The operator at a place gives the stream of an old operator. -/
inductive FoundAt (out : Circuit) (places : List Nat) (op : Operator) (place : Nat) : Prop
  | source (start : Nat) : op.kind.isSource = true → out.get? start = some op →
      out.get? place = some (relay .integral start op) →
      FoundAt out places op place
  | sink (input : Nat) : op.kind.isSink = true → op.inputs = [input] →
      places[input]? = some place → FoundAt out places op place
  | copy (inputs : List OperatorId) : op.kind.isSource = false → op.kind.isSink = false →
      out.get? place = some (op.withInputs inputs) →
      List.Forall₂ (fun (input new : Nat) => places[input]? = some new) op.inputs inputs →
      FoundAt out places op place

/-- A new sink reports the differential of the stream of an old one of the same name. -/
inductive Differentiates (out : Circuit) (places : List Nat) :
    String × OperatorId → String × OperatorId → Prop
  | intro (name : String) (new old change place : Nat) (sink difference : Operator) :
      out.get? new = some sink → sink.kind.isSink = true → sink.inputs = [change] →
      out.get? change = some difference → difference.kind = .differential →
      difference.inputs = [place] → places[old]? = some place →
      Differentiates out places (name, new) (name, old)

theorem getElem?_append_of_eq_some {more : List Nat} {i place : Nat}
    (h : places[i]? = some place) : (places ++ more)[i]? = some place :=
  (List.getElem?_append_left (List.getElem?_eq_some_iff.mp h).1).trans h

theorem FoundAt.mono {place : Nat} (h : out.FoundAt places op place) {out' : Circuit}
    (hout : ∀ (id : Nat) op, out.get? id = some op → out'.get? id = some op) (more : List Nat) :
    out'.FoundAt (places ++ more) op place := by
  cases h with
  | source start hsource hstart hplace =>
    exact .source start hsource (hout _ _ hstart) (hout _ _ hplace)
  | sink input hsink hinputs hplace =>
    exact .sink input hsink hinputs (getElem?_append_of_eq_some hplace)
  | copy inputs hsource hsink hplace hinputs =>
    exact .copy inputs hsource hsink (hout _ _ hplace)
      (hinputs.imp fun _ _ h => getElem?_append_of_eq_some h)

theorem Differentiates.mono {new old : String × OperatorId}
    (h : out.Differentiates places new old) {out' : Circuit}
    (hout : ∀ (id : Nat) op, out.get? id = some op → out'.get? id = some op) (more : List Nat) :
    out'.Differentiates (places ++ more) new old := by
  cases h with
  | intro name new old change place sink difference hnew hsink hinputs hchange hkind hreads
      hplace =>
    exact .intro name new old change place sink difference (hout _ _ hnew) hsink hinputs
      (hout _ _ hchange) hkind hreads (getElem?_append_of_eq_some hplace)

/-! ### The places in the incremental circuit -/

theorem SinksUnread.of_push (h : (c.push op).SinksUnread) : c.SinksUnread :=
  fun op' hop' input hinput other hother =>
    h op' (List.mem_append_left _ hop') input hinput other (get?_push_of_some hother)

/-- What the last operator reads is no sink. -/
theorem SinksUnread.last (h : (c.push op).SinksUnread) {input : Nat} (hinput : input ∈ op.inputs)
    {other : Operator} (hother : c.get? input = some other) : other.kind.isSink = false :=
  h op (List.mem_append_right _ (List.mem_singleton_self op)) input hinput other
    (get?_push_of_some hother)

/-- **The invariant.** Every old operator is found at its place, which is what stands for it unless
it is a sink, and the new sinks differentiate the old ones, in the same order. -/
structure Incremented.Finds (s : Incremented) (c : Circuit) (places : List Nat) : Prop where
  length_eq : places.length = c.size
  found : ∀ (i : Nat) op place, c.get? i = some op → places[i]? = some place →
    s.circuit.FoundAt places op place
  stands : ∀ (i : Nat) op, c.get? i = some op → op.kind.isSink = false → places[i]? = s.places[i]?
  sinks : List.Forall₂ (s.circuit.Differentiates places) s.circuit.reporters c.reporters

namespace Incremented.Finds

variable {s s' : Incremented}

/-- What is read has its place. -/
theorem inputs (h : s.Finds c places) (hlength : s.places.length = c.size) {inputs : List Nat}
    (hinputs : ∀ input ∈ inputs, ∃ other, c.get? input = some other ∧ other.kind.isSink = false) :
    List.Forall₂ (fun (input new : Nat) => places[input]? = some new) inputs
      (inputs.map s.place) := by
  rw [List.forall₂_map_right_iff, List.forall₂_same]
  intro input hinput
  obtain ⟨other, hother, hsink⟩ := hinputs input hinput
  rw [h.stands input other hother hsink, getElem?_places (hlength ▸ lt_size_of_get? hother)]

/-- The invariant after an operator, from what concerns that operator. -/
theorem push (h : s.Finds c places) (hlength : s.places.length = c.size) {new place : Nat}
    (hplaces : s'.places = s.places ++ [new])
    (hout : ∀ (id : Nat) op, s.circuit.get? id = some op → s'.circuit.get? id = some op)
    (hstands : op.kind.isSink = false → new = place)
    (hfound : s'.circuit.FoundAt (places ++ [place]) op place)
    (more : List (String × OperatorId))
    (hreporters : s'.circuit.reporters = s.circuit.reporters ++ more)
    (hmore : List.Forall₂ (s'.circuit.Differentiates (places ++ [place])) more
      (op.kind.sinkName?.map fun name => (name, c.size)).toList) :
    s'.Finds (c.push op) (places ++ [place]) where
  length_eq := by rw [List.length_append, h.length_eq, List.length_singleton, size_push]
  found := by
    intro i other p hother hp
    rcases get?_push_eq_some hother with hold | ⟨rfl, rfl⟩
    · rw [List.getElem?_append_left (h.length_eq ▸ lt_size_of_get? hold)] at hp
      exact (h.found i other p hold hp).mono hout [place]
    · rw [← h.length_eq, List.getElem?_concat_length] at hp
      exact Option.some.inj hp ▸ hfound
  stands := by
    intro i other hother hsink
    rcases get?_push_eq_some hother with hold | ⟨rfl, rfl⟩
    · have hlt := lt_size_of_get? hold
      rw [hplaces, List.getElem?_append_left (h.length_eq ▸ hlt),
        List.getElem?_append_left (hlength ▸ hlt)]
      exact h.stands i other hold hsink
    · rw [hplaces, hstands hsink, ← h.length_eq, List.getElem?_concat_length, h.length_eq,
        ← hlength, List.getElem?_concat_length]
  sinks := by
    rw [hreporters, reporters_push]
    exact List.rel_append (h.sinks.imp fun _ _ h => h.mono hout [place]) hmore

/-- A source is found behind its integral. -/
theorem source (h : s.Finds c places) (hlength : s.places.length = c.size)
    (hsource : op.kind.isSource = true) :
    (s.next op).Finds (c.push op) (places ++ [s.circuit.size + 1]) := by
  have hname := OperatorKind.sinkName?_of_isSource hsource
  rw [next_of_source hsource]
  refine h.push hlength rfl (fun id other hother => get?_push_of_some (get?_push_of_some hother))
    (fun _ => rfl) ?_ [] ?_ ?_
  · refine .source s.circuit.size hsource (get?_push_of_some (get?_push_size _ _)) ?_
    rw [← size_push s.circuit op, get?_push_size]
  · rw [reporters_push_of_none rfl, reporters_push_of_none hname, List.append_nil]
  · rw [hname]
    exact .nil

/-- A sink is found where it reads, and the new sink reads the differential of that. -/
theorem sink (h : s.Finds c places) (hlength : s.places.length = c.size)
    (hsink : op.kind.isSink = true) {input : Nat} (hinput : op.inputs = [input])
    (hinputs : List.Forall₂ (fun (input new : Nat) => places[input]? = some new) op.inputs
      (op.inputs.map s.place)) :
    (s.next op).Finds (c.push op) (places ++ [s.place input]) := by
  obtain ⟨name, hname⟩ := OperatorKind.exists_sinkName?_of_isSink hsink
  rw [hinput] at hinputs
  obtain _ | ⟨hplace, -⟩ := hinputs
  have hread : (s.difference op).inputs = [s.place input] := by
    rw [difference, hinput]
    rfl
  rw [next_of_sink hsink]
  refine h.push hlength rfl (fun id other hother => get?_push_of_some (get?_push_of_some hother))
    (fun hnone => nomatch hsink.symm.trans hnone)
    (.sink input hsink hinput (getElem?_append_of_eq_some hplace))
    [(name, s.circuit.size + 1)] ?_ ?_
  · rw [reporters_push, reporters_push_of_none rfl, size_push]
    show _ ++ (Option.map _ op.kind.sinkName?).toList = _
    rw [hname]
    rfl
  · rw [hname]
    have hlast : (places ++ [s.place input])[c.size]? = some (s.place input) := by
      rw [← h.length_eq]
      exact List.getElem?_concat_length
    have hnew := get?_push_size (s.circuit.push (s.difference op))
      (op.withInputs [s.circuit.size])
    rw [size_push] at hnew
    exact .cons (.intro name _ c.size s.circuit.size (s.place input) _ _ hnew hsink rfl
      (get?_push_of_some (get?_push_size _ _)) rfl hread hlast) .nil

/-- What is neither a source nor a sink is found as its copy. -/
theorem copy (h : s.Finds c places) (hlength : s.places.length = c.size)
    (hsource : op.kind.isSource = false) (hsink : op.kind.isSink = false)
    (hinputs : List.Forall₂ (fun (input new : Nat) => places[input]? = some new) op.inputs
      (op.inputs.map s.place)) :
    (s.next op).Finds (c.push op) (places ++ [s.circuit.size]) := by
  have hname := OperatorKind.sinkName?_of_isSink hsink
  rw [next_of_copy hsource hsink]
  refine h.push hlength rfl (fun id other hother => get?_push_of_some hother) (fun _ => rfl)
    (.copy (op.inputs.map s.place) hsource hsink (get?_push_size _ _)
      (hinputs.imp fun _ _ hnew => getElem?_append_of_eq_some hnew)) [] ?_ ?_
  · rw [List.append_nil]
    exact reporters_push_of_none hname
  · rw [hname]
    exact .nil

end Incremented.Finds

/-- In the incremental circuit of a circuit without sinks that are read, every old stream is
found. -/
theorem Built.exists_finds (hc : c.Built) (hsinks : c.SinksUnread) :
    ∃ places, c.incremented.Finds c places := by
  induction hc using Built.pushInduction with
  | empty name => exact ⟨[], rfl, nofun, nofun, .nil⟩
  | push c op hc hderive ih =>
    obtain ⟨places, h⟩ := ih hsinks.of_push
    have hlength := length_places c
    have hinputs := h.inputs hlength fun input hinput => by
      obtain ⟨other, hother⟩ := exists_input_of_derive hderive hinput
      exact ⟨other, hother, hsinks.last hinput hother⟩
    rw [incremented_push]
    cases hsource : op.kind.isSource with
    | true => exact ⟨_, h.source hlength hsource⟩
    | false =>
      cases hsink : op.kind.isSink with
      | true =>
        obtain ⟨-, input, -, hinput, -⟩ :=
          (derive_relay_eq_ok (OperatorKind.isRelay_of_isSink hsink)).mp hderive
        exact ⟨_, h.sink hlength hsink hinput hinputs⟩
      | false => exact ⟨_, h.copy hlength hsource hsink hinputs⟩

/-- **What the pass gives.** It goes through on circuits whose sinks are not read, and every old
stream has a place in the result. -/
theorem Built.incrementalize (hc : c.Built) (hsinks : c.SinksUnread) :
    ∃ out places, c.incrementalize = .ok out ∧ out.Built ∧ places.length = c.size ∧
      (∀ (i : Nat) op place, c.get? i = some op → places[i]? = some place →
        out.FoundAt places op place) ∧
      List.Forall₂ (out.Differentiates places) out.reporters c.reporters := by
  obtain ⟨hpass, hbuilt⟩ := hc.incrementalize_eq
  obtain ⟨places, h⟩ := hc.exists_finds hsinks
  exact ⟨_, places, hpass, hbuilt, h.length_eq, h.found, h.sinks⟩

end Circuit
end DeltaCircuit
