import DeltaCircuit.Double.Basic
import DeltaCircuit.Text.Integer

/-!
# Reading floating point numbers

`Double.read?` reads a sign, then `inf`, `infinity` or `nan` in any case of letters, or decimal
digits with an optional point and an optional exponent. There has to be a digit before or after
the point, and one in an exponent. The result is the number closest to the decimal.
-/

namespace DeltaCircuit.Double

/-- The number closest to `± n · 10 ^ e`. Exponents far outside the range of the numbers are
decided by the size of the decimal alone. -/
def ofDecimal (negative : Bool) (n : Nat) (e : Int) : Double :=
  let size : Int := Nat.log2 n + 4 * e
  if n = 0 then zero negative
  else if 0 ≤ e then
    if 5000 < size then infinity negative else nearest negative (n * Nat.pow 10 e.toNat) 0
  else if (Nat.log2 n : Int) + 3 * e < -5000 then zero negative
  else nearestRatio negative n (Nat.pow 10 (-e).toNat) 0

/-- Reads the exponent after the digits, an empty text being the exponent zero. -/
def readExponent? : List Char → Option Int
  | [] => some 0
  | c :: rest => if c = 'e' ∨ c = 'E' then Text.readInt? rest else none

/-- Reads an unsigned decimal. -/
def readDecimal? (negative : Bool) (cs : List Char) : Option Double :=
  let whole := cs.takeWhile Char.isDigit
  let afterWhole := cs.dropWhile Char.isDigit
  let (fraction, rest) :=
    match afterWhole with
    | '.' :: tail => (tail.takeWhile Char.isDigit, tail.dropWhile Char.isDigit)
    | tail => ([], tail)
  if whole.isEmpty && fraction.isEmpty then none
  else (readExponent? rest).map fun e =>
    ofDecimal negative (Text.digitsValue (whole ++ fraction)) (e - fraction.length)

/-- Reads a number. -/
def read? (cs : List Char) : Option Double :=
  let (negative, unsigned) := Text.splitSign cs
  match String.ofList (unsigned.map Char.toLower) with
  | "inf" | "infinity" => some (infinity negative)
  | "nan" => some nan
  | _ => readDecimal? negative unsigned

end DeltaCircuit.Double
