import DeltaCircuit.Eval.Interpreter
import DeltaCircuit.Weighted
import DeltaCircuit.ZSetLiteral

/-!
# Z-sets of values

What flows through a circuit: values with integer weights. An indexed Z-set holds rows of a key and
a value.

* `ZSet.add`, `ZSet.mergeFrom` — sums of weights, which fail when a weight does not fit. A merge
  that fails has merged the entries before the one that does not fit.
* `ZSetLiteral.contents` — the Z-set that a literal denotes.
-/

namespace DeltaCircuit

/-- Values with weights. -/
abbrev ZSet := List (Value × Int)

namespace ZSet

/-- The weight of a value. -/
def weight (z : ZSet) (v : Value) : Int := Weighted.weight Value.same z v

/-- Sets the weight of a value, even to zero. -/
def put (z : ZSet) (v : Value) (w : Int) : ZSet := Weighted.put Value.same z v w

/-- Adds to the weight of a value. -/
def add (z : ZSet) (v : Value) (w : Int) : Except EvalError ZSet :=
  match Weighted.add? Value.same z v w with
  | some z => .ok z
  | none => .error .weightOverflow

/-- Adds the entries of a list, each `sign` times, as far as the weights fit. -/
def mergeFrom (z : ZSet) (sign : Int) : List (Value × Int) → Except EvalError Unit × ZSet
  | [] => (.ok (), z)
  | (v, w) :: entries =>
    if Weighted.isWeight (w * sign) then
      match z.add v (w * sign) with
      | .ok z => mergeFrom z sign entries
      | .error e => (.error e, z)
    else (.error .weightOverflow, z)

/-- The sum with another Z-set that is taken `sign` times. -/
def merge (z other : ZSet) (sign : Int) : Except EvalError ZSet :=
  match z.mergeFrom sign other with
  | (.ok (), z) => .ok z
  | (.error e, _) => .error e

end ZSet

/-- The Z-set of the values of a literal's elements. -/
def ZSetLiteral.contents (z : ZSetLiteral) : Except EvalError ZSet :=
  z.entries.foldlM (fun s entry => do s.add (← entry.1.evaluate) entry.2) []

end DeltaCircuit
