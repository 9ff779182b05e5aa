import DeltaCircuit.Double.Basic

/-!
# Shortest decimal digits

`Double.shortest` gives the fewest decimal digits that still denote the number among all numbers,
and of those the closest. A decimal denotes `d` when it lies between the midpoints to the two
neighbours of `d`, the midpoints included iff the significand is even.

The search walks the grids `c · 10 ^ k` from coarse to fine. On each grid only the two neighbours
of the exact value need a test: if any point of the grid denotes the number, one of them does.
-/

namespace DeltaCircuit.Double

/-- The significand of a positive finite number and the midpoints around it, in quarters of its
unit: `(low, value, high, q)` stands for `low · 2 ^ q < value · 2 ^ q < high · 2 ^ q`. Below a
power of two the neighbour is only half as far. -/
def interval (d : Double) : Nat × Nat × Nat × Int :=
  let (m, q) := d.decode
  let nearBelow := m = fractionUnit ∧ -1074 < q
  (4 * m - (if nearBelow then 1 else 2), 4 * m, 4 * m + 2, q - 2)

/-- The best point `c` of the grid `c · 10 ^ k` that denotes the number, if any does. Both the
grid and the number are scaled to integers first. -/
def onGrid? (d : Double) (k : Int) : Option Nat :=
  let (low, value, high, q) := d.interval
  let step := Nat.pow 10 k.toNat * Nat.pow 2 (-q).toNat
  let unit := Nat.pow 10 (-k).toNat * Nat.pow 2 q.toNat
  let closed := d.decode.1 % 2 = 0
  let denotes (c : Nat) : Bool :=
    if closed then low * unit ≤ c * step && c * step ≤ high * unit
    else low * unit < c * step && c * step < high * unit
  let below := value * unit / step
  let above := below + 1
  match denotes below, denotes above with
  | true, true =>
    if 2 * (value * unit) < (below + above) * step then some below else some above
  | true, false => some below
  | false, true => some above
  | false, false => none

/-- The coarsest grid worth testing: its step is above the number. -/
def coarsest (d : Double) : Int :=
  let (m, q) := d.decode
  ((Nat.log2 m : Int) + q + 1) * 30103 / 100000 + 1

/-- The digits of a positive finite number, without zeros at the end, and the exponent of ten of
the last digit. Every number has a hit within the first few grids below its size. -/
def shortest (d : Double) : List Char × Int :=
  let hit := (List.range 24).findSome? fun (i : Nat) =>
    let k := d.coarsest - i
    (d.onGrid? k).map fun c => (c, k)
  match hit with
  | none => (['0'], 0)
  | some (c, k) =>
    let digits := Nat.toDigits 10 c
    let kept := (digits.reverse.dropWhile (· == '0')).reverse
    (kept, k + (digits.length - kept.length : Nat))

end DeltaCircuit.Double
