/-!
# Weighted collections

A weighted collection is a list of elements with integer weights, in the order in which the
elements were first added. Elements are compared by a test `same`, and an element that is absent
has weight zero. Z-set literals and the Z-sets that flow through a circuit are such collections,
over expressions and over values.

* `Weighted.weight` — the weight function that a collection denotes.
* `Weighted.put` — replaces the weight of an element. The element that was added first stays.
* `Weighted.add?` — adds to the weight of an element and drops the element at zero; it fails when
  the sum is no weight (`Weighted.isWeight`).
-/

namespace DeltaCircuit.Weighted

variable {α : Type}

/-- Weights are integers of 64 bits. -/
def isWeight (w : Int) : Bool := -(Nat.pow 2 63 : Nat) ≤ w && w < (Nat.pow 2 63 : Nat)

/-- The weight of the first entry of an element. -/
def find? (same : α → α → Bool) : List (α × Int) → α → Option Int
  | [], _ => none
  | (y, w) :: entries, x => if same y x then some w else find? same entries x

/-- The weight of an element, zero for one that is absent. -/
def weight (same : α → α → Bool) (entries : List (α × Int)) (x : α) : Int :=
  (find? same entries x).getD 0

/-- Removes the entry of an element. -/
def erase (same : α → α → Bool) : List (α × Int) → α → List (α × Int)
  | [], _ => []
  | (y, w) :: entries, x => if same y x then entries else (y, w) :: erase same entries x

/-- Sets the weight of an element, at its place or else at the end. -/
def put (same : α → α → Bool) : List (α × Int) → α → Int → List (α × Int)
  | [], x, w => [(x, w)]
  | (y, v) :: entries, x, w =>
    if same y x then (y, w) :: entries else (y, v) :: put same entries x w

/-- Adds to the weight of an element. -/
def add? (same : α → α → Bool) (entries : List (α × Int)) (x : α) (w : Int) :
    Option (List (α × Int)) :=
  if w = 0 then some entries
  else
    let total := weight same entries x + w
    if isWeight total then
      some (if total = 0 then erase same entries x else put same entries x total)
    else none

end DeltaCircuit.Weighted
