import DeltaCircuit.Proofs.Traversal.Children

/-!
# Pruned traversals

A visitor that says something about the hook of all nodes only, and lets every other hook pass its
calls on, hears of each node once before it and once after it. Where it declines to enter, the walk
leaves out the nodes below and does not announce that it leaves. So pruning is deletion: what is
recorded is what a walk of everything records, with the inside and the end of every pruned node cut
out.

* `Visitor.pruning` — the visitor that declines to enter the nodes of a predicate.
* `SyntaxNode.visits` — what it records.
* `Visit.prune` — the deletion, which counts nodes still open since the outermost pruned one.
* `Visit.Nested` — properly nested recordings.
* `SyntaxNode.visits_pruned` — the four statements about a recording.

An arm of a match is announced to a hook of its own, which passes nothing on; what is below it is
recorded, the arm is not.
-/

namespace DeltaCircuit

/-! ### Recordings -/

/-- What is recorded of a node: that the walk comes to it, and that it leaves it. -/
inductive Visit where
  | pre (node : SyntaxNode)
  | post (node : SyntaxNode)

/-- **The pruning visitor.** It records the calls of the hook of all nodes and declines to enter the
nodes of a predicate. The other hooks are as nobody has said anything about them. -/
def Visitor.pruning (delegates : Bool) (P : SyntaxNode → Bool) : Visitor (List Visit) :=
  { Visitor.silent delegates with
    before := fun h n visits =>
      if h = .node then (.settled (!P n), .pre n :: visits)
      else (Visitor.silent delegates).before h n visits
    after := fun h n visits =>
      if h = .node then (false, .post n :: visits)
      else (Visitor.silent delegates).after h n visits }

/-- What a pruned visit of a node records, in order. -/
def SyntaxNode.visits (delegates : Bool) (P : SyntaxNode → Bool) (n : SyntaxNode) : List Visit :=
  (n.traverse (.pruning delegates P) []).reverse

namespace Visit

/-- **Deletion.** After the first event of a node of the predicate, everything up to and including
the matching last event is deleted. The number counts the nodes that have been left open since;
outside of a pruned node it is zero. -/
def prune (P : SyntaxNode → Bool) : (opened : Nat) → List Visit → List Visit
  | _, [] => []
  | 0, .pre n :: visits => .pre n :: prune P (if P n then 1 else 0) visits
  | 0, .post n :: visits => .post n :: prune P 0 visits
  | opened + 1, .pre _ :: visits => prune P (opened + 2) visits
  | opened + 1, .post _ :: visits => prune P opened visits

/-- **Properly nested recordings.** A node that is not entered has its first event only; an entered
one has both, around a properly nested recording. -/
inductive Nested (P : SyntaxNode → Bool) : List Visit → Prop
  | nil : Nested P []
  | append {visits visits' : List Visit} (h : Nested P visits) (h' : Nested P visits') :
      Nested P (visits ++ visits')
  | pruned {n : SyntaxNode} (hn : P n = true) : Nested P [.pre n]
  | entered {n : SyntaxNode} {inside : List Visit} (hn : P n = false) (h : Nested P inside) :
      Nested P (.pre n :: inside ++ [.post n])

/-- The nodes that a recording comes to, in order. -/
def pres (visits : List Visit) : List SyntaxNode :=
  visits.filterMap fun | .pre n => some n | .post _ => none

/-- The nodes that a recording leaves, in order. -/
def posts (visits : List Visit) : List SyntaxNode :=
  visits.filterMap fun | .pre _ => none | .post n => some n

variable {P : SyntaxNode → Bool} {visits visits' rest : List Visit}

@[simp] theorem pres_append : pres (visits ++ visits') = pres visits ++ pres visits' :=
  List.filterMap_append

@[simp] theorem posts_append : posts (visits ++ visits') = posts visits ++ posts visits' :=
  List.filterMap_append

/-- **One end for each beginning.** The nodes that a nested recording leaves are those it comes to
and enters, each as often as it enters it. -/
theorem Nested.posts_perm (h : Nested P visits) :
    (posts visits).Perm ((pres visits).filter fun n => !P n) := by
  induction h with
  | nil => exact .nil
  | append _ _ ih ih' =>
    rw [posts_append, pres_append, List.filter_append]
    -- appending keeps both sides apart
    exact ih.append ih'
  | @pruned n hn =>
    -- the node is come to, and is neither entered nor left
    rw [show pres [.pre n] = [n] from rfl, List.filter_cons_of_neg (by simp [hn])]
    exact .nil
  | @entered n inside hn _ ih =>
    -- the end of the node is the last event, its beginning the first
    have hposts : posts (.pre n :: inside ++ [.post n]) = posts inside ++ [n] := posts_append
    have hpres : pres (.pre n :: inside ++ [.post n]) = n :: pres inside := by
      rw [pres_append]
      exact List.append_nil _
    rw [hposts, hpres, List.filter_cons_of_pos (by simp [hn])]
    exact (List.perm_append_singleton n _).trans (ih.cons n)

/-- Inside a pruned node, a nested recording of everything is deleted as a whole. -/
theorem Nested.prune_append (h : Nested (fun _ => false) visits) (opened : Nat) :
    prune P (opened + 1) (visits ++ rest) = prune P (opened + 1) rest := by
  -- an entered node opens one more and closes it again, with its inside deleted in between
  induction h generalizing opened rest with
  | nil => rfl
  | append _ _ ih ih' => rw [List.append_assoc, ih, ih']
  | pruned hn => cases hn
  | @entered n inside _ _ ih =>
    rw [List.append_assoc, List.cons_append, prune, ih (opened + 1)]
    rfl

/-- Properly nested recordings in a row. -/
theorem Nested.flatMap {ns : List SyntaxNode} {f : SyntaxNode → List Visit}
    (h : ∀ n ∈ ns, Nested P (f n)) : Nested P (ns.flatMap f) := by
  induction ns with
  | nil => exact .nil
  | cons n ns ih =>
    rw [List.flatMap_cons]
    exact .append (h n List.mem_cons_self) (ih fun m hm => h m (List.mem_cons_of_mem n hm))

end Visit

/-! ### Which hooks are called -/

namespace Hook

/-- The hook of all nodes is at the end of every chain but that of the arms. -/
theorem chain_eq {h : Hook} (hh : h ≠ .matchCase) :
    h.chain = h.chain.dropLast ++ [.node] ∧ .node ∉ h.chain.dropLast := by
  -- the chain of every hook is a closed list
  cases h <;> first | exact absurd rfl hh | decide

end Hook

namespace SyntaxNode

variable {P : SyntaxNode → Bool} {n : SyntaxNode} {visits : List Visit}

/-- Whether a node is an arm of a match. -/
def isArm : SyntaxNode → Bool
  | .arm _ => true
  | _ => false

/-- No node is announced to the hook of all nodes first, and arms only to that of their own. -/
theorem hook_ne (n : SyntaxNode) : n.hook ≠ .node ∧ (n.isArm = false → n.hook ≠ .matchCase) := by
  -- the hook of a node is that of its sort and form, never the general one
  cases n with
  | type t =>
    obtain ⟨kind, nullable⟩ := t
    cases kind with
    | base b => cases b <;> exact ⟨nofun, nofun⟩
    | _ => exact ⟨nofun, nofun⟩
  | expr e =>
    obtain ⟨tag, type, form⟩ := e
    cases form <;> exact ⟨nofun, nofun⟩
  | pattern p => cases p <;> exact ⟨nofun, nofun⟩
  | statement st => cases st <;> exact ⟨nofun, nofun⟩
  | arm a => exact ⟨nofun, nofun⟩

end SyntaxNode

namespace Visitor

open SyntaxNode

variable {P : SyntaxNode → Bool} {n : SyntaxNode} {visits : List Visit} {narrower : List Hook}

/-- Hooks that nobody has said anything about pass the call on to the one of all nodes. -/
theorem enterAlong_pruning (h : .node ∉ narrower) :
    (pruning true P).enterAlong n (narrower ++ [.node]) visits = (!P n, .pre n :: visits) := by
  induction narrower with
  | nil => rfl
  | cons hook narrower ih =>
    -- a hook that is not the last passes on and records nothing
    have hpass : (pruning true P).before hook n visits = (.passedOn, visits) :=
      if_neg (List.ne_of_not_mem_cons h).symm
    rw [List.cons_append, enterAlong, hpass]
    exact ih (List.not_mem_of_not_mem_cons h)

theorem leaveAlong_pruning (h : .node ∉ narrower) :
    (pruning true P).leaveAlong n (narrower ++ [.node]) visits = .post n :: visits := by
  induction narrower with
  | nil => rfl
  | cons hook narrower ih =>
    have hpass : (pruning true P).after hook n visits = (true, visits) :=
      if_neg (List.ne_of_not_mem_cons h).symm
    rw [List.cons_append, leaveAlong, hpass]
    exact ih (List.not_mem_of_not_mem_cons h)

theorem enter_pruning (hn : n.isArm = false) :
    (pruning true P).enter n visits = (!P n, .pre n :: visits) := by
  obtain ⟨hchain, hnarrower⟩ := Hook.chain_eq (n.hook_ne.2 hn)
  rw [enter, hchain]
  exact enterAlong_pruning hnarrower

theorem leave_pruning (hn : n.isArm = false) :
    (pruning true P).leave n visits = .post n :: visits := by
  obtain ⟨hchain, hnarrower⟩ := Hook.chain_eq (n.hook_ne.2 hn)
  rw [leave, hchain]
  exact leaveAlong_pruning hnarrower

/-- Where hooks do not pass calls on, the one of all nodes is not called. -/
theorem enter_pruning_false : (pruning false P).enter n visits = (true, visits) := by
  -- the first hook of the chain settles the question
  have hsettled : (pruning false P).before n.hook n visits = (.settled true, visits) :=
    if_neg n.hook_ne.1
  rw [enter, Hook.chain, Hook.chainUpTo, enterAlong, hsettled]

theorem leave_pruning_false : (pruning false P).leave n visits = visits := by
  have hsettled : (pruning false P).after n.hook n visits = (false, visits) := if_neg n.hook_ne.1
  rw [leave, Hook.chain, Hook.chainUpTo, leaveAlong, hsettled]

end Visitor

namespace SyntaxNode

variable {P : SyntaxNode → Bool} {n : SyntaxNode}

/-! ### What is recorded -/

/-- What is recorded of a node when it is visited alone: an arm is passed over, a node of the
predicate is not entered, and the nodes below any other one stand between its two events. -/
def frame (P : SyntaxNode → Bool) (n : SyntaxNode) (inside : List Visit) : List Visit :=
  if n.isArm then inside
  else if P n then [.pre n]
  else .pre n :: inside ++ [.post n]

theorem around_pruning {inside : List Visit} {parts : List Visit → List Visit}
    (h : ∀ visits, parts visits = inside.reverse ++ visits) (visits : List Visit) :
    (Visitor.pruning true P).around n parts visits = (frame P n inside).reverse ++ visits := by
  unfold frame
  by_cases hn : n.isArm = true
  · rw [if_pos hn]
    cases n with
    | arm a => exact h visits
    | _ => cases hn
  · rw [if_neg hn]
    rw [Bool.not_eq_true] at hn
    unfold Visitor.around
    rw [Visitor.enter_pruning hn]
    by_cases hP : P n = true
    · -- declined: only the first event, and neither the inside nor the last one
      simp [hP]
    · rw [Bool.not_eq_true] at hP
      simp [hP, h, Visitor.leave_pruning hn]

theorem walkAll_pruning {ns : List SyntaxNode} {f : SyntaxNode → List Visit}
    (h : ∀ n ∈ ns, ∀ visits, n.walk (.pruning true P) visits = (f n).reverse ++ visits)
    (visits : List Visit) :
    walkAll (.pruning true P) ns visits = (ns.flatMap f).reverse ++ visits := by
  induction ns generalizing visits with
  | nil => rfl
  | cons n ns ih =>
    rw [walkAll_cons, ih fun m hm => h m (List.mem_cons_of_mem n hm), h n List.mem_cons_self]
    simp

/-- A visit only adds to what has been recorded before it. -/
theorem walk_pruning (n : SyntaxNode) (visits : List Visit) :
    n.walk (.pruning true P) visits = (n.visits true P).reverse ++ visits := by
  -- what is added must not depend on what has been recorded, so it comes before the induction
  suffices h : ∃ added : List Visit,
      ∀ visits, n.walk (.pruning true P) visits = added.reverse ++ visits by
    obtain ⟨added, hadded⟩ := h
    have hvisits : n.visits true P = added := by
      change (n.walk (.pruning true P) []).reverse = added
      rw [hadded, List.append_nil, List.reverse_reverse]
    rw [hvisits, hadded]
  induction n using children_induction with
  | step n ih =>
    -- the recordings of the nodes below are put together, one after another
    choose! f hf using ih
    refine ⟨frame P n (n.children.flatMap f), fun visits => ?_⟩
    rw [walk_eq]
    exact around_pruning (walkAll_pruning hf) visits

/-- **The recording of a node**, from those of the nodes below it. -/
theorem visits_eq (P : SyntaxNode → Bool) (n : SyntaxNode) :
    n.visits true P = frame P n (n.children.flatMap (visits true P)) := by
  change (n.walk (.pruning true P) []).reverse = _
  rw [walk_eq, around_pruning (walkAll_pruning fun m _ => m.walk_pruning), List.append_nil,
    List.reverse_reverse]

theorem nested_visits (P : SyntaxNode → Bool) (n : SyntaxNode) :
    Visit.Nested P (n.visits true P) := by
  induction n using children_induction with
  | step n ih =>
    rw [visits_eq, frame]
    have hinside := Visit.Nested.flatMap ih
    by_cases hn : n.isArm = true
    · rwa [if_pos hn]
    · -- an arm has no events of its own, so its inside is all there is
      rw [if_neg hn]
      by_cases hP : P n = true
      · rw [if_pos hP]
        exact .pruned hP
      · rw [if_neg hP]
        exact .entered (Bool.not_eq_true _ ▸ hP) hinside

theorem prune_flatMap {ns : List SyntaxNode} {f g : SyntaxNode → List Visit}
    (h : ∀ n ∈ ns, ∀ rest, Visit.prune P 0 (f n ++ rest) = g n ++ Visit.prune P 0 rest)
    (rest : List Visit) :
    Visit.prune P 0 (ns.flatMap f ++ rest) = ns.flatMap g ++ Visit.prune P 0 rest := by
  induction ns with
  | nil => rfl
  | cons n ns ih =>
    -- outside of pruned nodes, deletion works on each node on its own
    rw [List.flatMap_cons, List.flatMap_cons, List.append_assoc, h n List.mem_cons_self,
      ih fun m hm => h m (List.mem_cons_of_mem n hm), List.append_assoc]

/-- Of the recording of everything, deletion leaves the recording with the predicate. -/
theorem prune_visits (P : SyntaxNode → Bool) (n : SyntaxNode) (rest : List Visit) :
    Visit.prune P 0 (n.visits true (fun _ => false) ++ rest) =
      n.visits true P ++ Visit.prune P 0 rest := by
  induction n using children_induction generalizing rest with
  | step n ih =>
    have hinside := prune_flatMap ih
    have hnested := Visit.Nested.flatMap fun m (_ : m ∈ n.children) => m.nested_visits fun _ => false
    rw [visits_eq, visits_eq P, frame, frame]
    by_cases hn : n.isArm = true
    · -- neither recording has events for an arm
      rw [if_pos hn, if_pos hn]
      exact hinside rest
    · rw [if_neg hn, if_neg hn, if_neg Bool.false_ne_true, List.append_assoc, List.cons_append,
        List.singleton_append, Visit.prune]
      by_cases hP : P n = true
      · -- the inside is nested, so the deletion ends with the last event of `n` itself
        rw [if_pos hP, if_pos hP, hnested.prune_append 0]
        rfl
      · -- the node is entered in both recordings, and deletion goes on inside
        rw [if_neg hP, if_neg hP, hinside, Visit.prune]
        simp

/-- Where hooks do not pass calls on, nothing is recorded. -/
theorem walk_pruning_false (n : SyntaxNode) (visits : List Visit) :
    n.walk (.pruning false P) visits = visits := by
  induction n using children_induction generalizing visits with
  | step n ih =>
    -- no node below records anything either
    have hinside : ∀ (ns : List SyntaxNode), (∀ m ∈ ns, m ∈ n.children) →
        walkAll (.pruning false P) ns visits = visits := by
      intro ns hns
      induction ns with
      | nil => rfl
      | cons m ns ihns =>
        rw [walkAll_cons, ih m (hns m List.mem_cons_self)]
        exact ihns fun k hk => hns k (List.mem_cons_of_mem m hk)
    rw [walk_eq, Visitor.around, Visitor.enter_pruning_false]
    change Visitor.leave _ n (walkAll _ n.children visits) = visits
    rw [Visitor.leave_pruning_false, hinside n.children fun _ hm => hm]

/-- **Pruning is deletion.** With hooks that pass their calls on, what a pruned visit records is
what a visit of everything records, less the inside and the end of every outermost pruned node. Each
entered node has exactly one event before and one after those of the nodes below it, so that
recordings are properly nested. Without passing on, nothing is recorded. -/
theorem visits_pruned (P : SyntaxNode → Bool) (n : SyntaxNode) :
    n.visits true P = Visit.prune P 0 (n.visits true fun _ => false) ∧
      n.visits true P = frame P n (n.children.flatMap (visits true P)) ∧
      Visit.Nested P (n.visits true P) ∧
      (Visit.posts (n.visits true P)).Perm
        ((Visit.pres (n.visits true P)).filter fun m => !P m) ∧
      n.visits false P = [] := by
  have hprune := prune_visits P n []
  rw [List.append_nil, Visit.prune, List.append_nil] at hprune
  have hsilent : n.visits false P = [] :=
    congrArg List.reverse (walk_pruning_false (P := P) n [])
  exact ⟨hprune.symm, visits_eq P n, nested_visits P n, (nested_visits P n).posts_perm, hsilent⟩

end SyntaxNode

end DeltaCircuit
