/-!
# Association lists

Lists of pairs with pairwise different keys, in the order in which the keys were first set. They
serve wherever the order of the keys can be seen: variables of a scope, outputs of a circuit,
tables of a program.

* `Assoc.get?`, `Assoc.set` — look-up and update. An update keeps the place of the key.
-/

namespace DeltaCircuit.Assoc

variable {κ β : Type} [DecidableEq κ]

/-- The value of a key. -/
def get? : List (κ × β) → κ → Option β
  | [], _ => none
  | (k, b) :: rest, key => if k = key then some b else get? rest key

/-- Sets the value of a key, at its place or else at the end. -/
def set : List (κ × β) → κ → β → List (κ × β)
  | [], key, value => [(key, value)]
  | (k, b) :: rest, key, value =>
    if k = key then (k, value) :: rest else (k, b) :: set rest key value

/-- Removes a key. -/
def erase : List (κ × β) → κ → List (κ × β)
  | [], _ => []
  | (k, b) :: rest, key => if k = key then rest else (k, b) :: erase rest key

end DeltaCircuit.Assoc
