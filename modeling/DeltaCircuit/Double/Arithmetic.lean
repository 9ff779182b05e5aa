import DeltaCircuit.Double.Basic

/-!
# Floating point arithmetic

The four operations are exact operations on `m · 2 ^ q` followed by one rounding
(`Double.nearest`). The remainder needs no rounding: it is a multiple of the smaller unit and
smaller than both operands, hence a number itself.

* `Double.add`, `Double.sub`, `Double.mul`, `Double.div`, `Double.neg`
* `Double.rem` — the remainder of a division that truncates toward zero, with the sign of the
  dividend.
* `Double.truncate` — the integer part, kept within a range of integers.
-/

namespace DeltaCircuit.Double

/-! ### Sum and difference -/

/-- Two numbers over the smaller of their units. -/
def align (a b : Double) : Nat × Nat × Int :=
  let (ma, qa) := a.decode
  let (mb, qb) := b.decode
  let q := min qa qb
  (ma <<< (qa - q).toNat, mb <<< (qb - q).toNat, q)

def signed (negative : Bool) (n : Nat) : Int := if negative then -(n : Int) else n

/-- A sum that cancels is the positive zero, unless both terms are negative zeros. -/
def add (a b : Double) : Double :=
  if a.isNaN || b.isNaN then nan
  else if a.isInfinite then
    if b.isInfinite && a.isNegative != b.isNegative then nan else a
  else if b.isInfinite then b
  else
    let (ma, mb, q) := align a b
    let total := signed a.isNegative ma + signed b.isNegative mb
    if total = 0 then zero (a.isNegative && b.isNegative) else nearest (total < 0) total.natAbs q

/-- The other sign; the undefined number has none. -/
def neg (d : Double) : Double :=
  if d.isNaN then nan else ofParts (!d.isNegative) d.magnitude

def sub (a b : Double) : Double := add a b.neg

/-! ### Product and quotient -/

def mul (a b : Double) : Double :=
  let negative := a.isNegative != b.isNegative
  if a.isNaN || b.isNaN then nan
  else if a.isInfinite || b.isInfinite then
    if a.isZero || b.isZero then nan else infinity negative
  else
    let (ma, qa) := a.decode
    let (mb, qb) := b.decode
    nearest negative (ma * mb) (qa + qb)

def div (a b : Double) : Double :=
  let negative := a.isNegative != b.isNegative
  if a.isNaN || b.isNaN then nan
  else if a.isInfinite then if b.isInfinite then nan else infinity negative
  else if b.isInfinite then zero negative
  else if b.isZero then if a.isZero then nan else infinity negative
  else if a.isZero then zero negative
  else
    let (ma, qa) := a.decode
    let (mb, qb) := b.decode
    nearestRatio negative ma mb (qa - qb)

def rem (a b : Double) : Double :=
  if a.isNaN || b.isNaN || a.isInfinite || b.isZero then nan
  else if b.isInfinite then a
  else
    let (ma, mb, q) := align a b
    nearest a.isNegative (ma % mb) q

/-! ### Integer part -/

/-- The integer part of a number, moved into `low … high`; the undefined number goes to zero. -/
def truncate (d : Double) (low high : Int) : Int :=
  if d.isNaN then 0
  else if d.isInfinite then if d.isNegative then low else high
  else
    let (m, q) := d.decode
    let whole := if 0 ≤ q then m <<< q.toNat else m >>> (-q).toNat
    max low (min high (signed d.isNegative whole))

end DeltaCircuit.Double
