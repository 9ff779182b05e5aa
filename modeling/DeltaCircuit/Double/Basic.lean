/-!
# Binary floating point numbers

`Double` is a floating point number of sixty-four bits, kept as its bit pattern, so that equality
of patterns is decidable and every operation is an integer computation.

* `Double.decode` — a finite number as `m · 2 ^ q`.
* `Double.rank` — the place of a number in a total order: both zeros at `0`, and the undefined
  number above all others and equal to itself. `Double.same` and `Double.order` are read off it.
* `Double.nearest`, `Double.nearestRatio` — the number closest to an exact value; a value halfway
  between two numbers goes to the one with an even significand.
-/

namespace DeltaCircuit

/-- A floating point number with eleven exponent bits and fifty-two fraction bits. -/
structure Double where
  bits : UInt64
deriving DecidableEq

namespace Double

/-! ### Parts of the pattern -/

/-- The number of fraction bits, as a power of two. -/
def fractionUnit : Nat := Nat.pow 2 52

/-- The pattern without its sign bit. -/
def magnitude (d : Double) : Nat := d.bits.toNat % Nat.pow 2 63

/-- The magnitude of the infinities; anything above is undefined. -/
def infiniteMagnitude : Nat := 0x7FF * fractionUnit

/-- The sign bit. Zeros have one too. -/
def isNegative (d : Double) : Bool := Nat.pow 2 63 ≤ d.bits.toNat

def isNaN (d : Double) : Bool := infiniteMagnitude < d.magnitude

def isInfinite (d : Double) : Bool := d.magnitude == infiniteMagnitude

def isZero (d : Double) : Bool := d.magnitude == 0

/-- The number with a given sign bit and magnitude. -/
def ofParts (negative : Bool) (magnitude : Nat) : Double :=
  ⟨UInt64.ofNat ((if negative then Nat.pow 2 63 else 0) + magnitude)⟩

/-- The undefined number, in its one canonical pattern. -/
def nan : Double := ofParts false (infiniteMagnitude + Nat.pow 2 51)

def infinity (negative : Bool) : Double := ofParts negative infiniteMagnitude

def zero (negative : Bool) : Double := ofParts negative 0

/-- A finite number without its sign is `m · 2 ^ q` for the pair `(m, q)`. -/
def decode (d : Double) : Nat × Int :=
  let exponent := d.magnitude / fractionUnit
  let fraction := d.magnitude % fractionUnit
  if exponent = 0 then (fraction, -1074) else (fractionUnit + fraction, (exponent : Int) - 1075)

/-! ### Order -/

/-- The place of a number in the total order. -/
def rank (d : Double) : Int :=
  if d.isNaN then (Nat.pow 2 63 : Nat)
  else if d.isNegative then -(d.magnitude : Int) else d.magnitude

/-- Equality as the order sees it: the two zeros are the same, and so are two undefined
numbers. -/
def same (a b : Double) : Bool := a.rank == b.rank

def order (a b : Double) : Ordering := compare a.rank b.rank

/-- The representative of all numbers that are the same as a given one. -/
def canonical (d : Double) : Double :=
  if d.isNaN then nan else if d.isZero then zero false else d

/-! ### Rounding -/

/-- `n / 2 ^ shift`, rounded to the nearest integer, halves to the even one. -/
def roundShift (n shift : Nat) : Nat :=
  let quotient := n >>> shift
  let rest := n % Nat.pow 2 shift
  if 2 * rest > Nat.pow 2 shift ∨ (2 * rest = Nat.pow 2 shift ∧ quotient % 2 = 1) then
    quotient + 1
  else quotient

/-- The number closest to `± m · 2 ^ q`. A significand that rounds up to the next power of two
carries into the exponent, and beyond the largest exponent lies the infinity. -/
def nearest (negative : Bool) (m : Nat) (q : Int) : Double :=
  if m = 0 then zero negative else
  let unit : Int := max (q + (Nat.log2 m : Int) - 52) (-1074)
  let significand := if unit ≤ q then m <<< (q - unit).toNat else roundShift m (unit - q).toNat
  let magnitude := (unit + 1074).toNat * fractionUnit + significand
  if magnitude < infiniteMagnitude then ofParts negative magnitude else infinity negative

/-- The number closest to `± (num / den) · 2 ^ q`, for a positive `den`. The quotient is taken
with more bits than a significand has, and a remainder only breaks ties. -/
def nearestRatio (negative : Bool) (num den : Nat) (q : Int) : Double :=
  let shift := (Nat.log2 den + 70) - Nat.log2 num
  let scaled := num <<< shift
  let sticky := if scaled % den = 0 then 0 else 1
  nearest negative (2 * (scaled / den) + sticky) (q - shift - 1)

/-- The number closest to an integer. -/
def ofInt (i : Int) : Double := nearest (i < 0) i.natAbs 0

end Double
end DeltaCircuit
