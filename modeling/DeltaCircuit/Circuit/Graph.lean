import DeltaCircuit.Circuit.Basic

/-!
# The graph of a circuit

The edges of a circuit go from every operator to the operators that read it, one for each time it
is read.

* `Circuit.topologicalOrder` — the operators, each after all that it reads. Depth first, from every
  operator that is not visited yet; of the readers of an operator, the oldest edge goes first. The
  order is that in which the operators are finished, reversed.
* `Circuit.ancestors` — the operators that some given ones read, directly or not.
-/

namespace DeltaCircuit

namespace Circuit

/-- The edges, in the order of the readers and of their inputs. -/
def edges (c : Circuit) : List (OperatorId × OperatorId) :=
  c.numbered.flatMap fun (id, op) => op.inputs.map fun input => (input, id)

/-- The readers of an operator, one for each edge. -/
def readers (c : Circuit) (id : OperatorId) : List OperatorId :=
  (c.edges.filter fun edge => edge.1 = id).map Prod.snd

/-! ### Order -/

/-- What a depth-first search has found: the operators met, and those finished, the last first. -/
structure Search where
  met : List OperatorId
  finished : List OperatorId

/-- Visits an operator and then its readers. No path is longer than the number of operators, which
bounds the depth. -/
def visit (c : Circuit) : (depth : Nat) → OperatorId → Search → Search
  | 0, _, search => search
  | depth + 1, id, search =>
    if search.met.contains id then search
    else
      let after := (c.readers id).foldl (fun s reader => c.visit depth reader s)
        { search with met := id :: search.met }
      { after with finished := id :: after.finished }

/-- Whether every operator stands after those that it reads. -/
def isOrdered (c : Circuit) (order : List OperatorId) : Bool :=
  c.edges.all fun edge => order.idxOf edge.1 < order.idxOf edge.2

/-- The operators, each after all that it reads. -/
def topologicalOrder (c : Circuit) : Except CircuitError (List OperatorId) :=
  let search := (List.range c.size).foldl (fun s id => c.visit c.size id s) ⟨[], []⟩
  if c.isOrdered search.finished then .ok search.finished else .error (.cycle c.name)

/-! ### Reachability -/

/-- The roots together with everything that they read. Operators read only earlier ones, so one
sweep from the last operator to the first meets all of them. -/
def needed (c : Circuit) (roots : List OperatorId) : List OperatorId :=
  c.numbered.foldr (fun (id, op) found => if found.contains id then op.inputs ++ found else found)
    (roots.filter (· < c.size))

/-- The existing roots and every operator that they read, directly or not, in order. -/
def ancestors (c : Circuit) (roots : List OperatorId) : List OperatorId :=
  let needed := c.needed roots
  (List.range c.size).filter needed.contains

end Circuit
end DeltaCircuit
