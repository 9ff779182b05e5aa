import DeltaCircuit.Double.Shortest

/-!
# Decimal layouts

How the shortest digits of a number are laid out as a text. A `Layout` fixes the range of decimal
exponents that are written by position and whether a whole number carries a fraction.

* `Layout.program` — numbers inside programs and messages: `1.0`, `1e16`, `1.5e-7`.
* `Layout.plain` — numbers converted to text as data: `1`, `0.00001`, never an exponent.
-/

namespace DeltaCircuit.Double

/-- The free choices of a layout. -/
structure Layout where
  /-- The decimal exponents of the first digit that are written by position; `none` stands for
  all of them. -/
  positional : Option (Int × Int)
  /-- Whether a whole number written by position ends in `.0`. -/
  keepsFraction : Bool

/-- Numbers of a program keep a fraction, and go to an exponent from `10 ^ 16` on and below
`10 ^ (-4)`. -/
def Layout.program : Layout := ⟨some (-4, 15), true⟩

/-- Numbers as data are always written out by position and have a fraction only if needed. -/
def Layout.plain : Layout := ⟨none, false⟩

/-- Whether a first digit worth `10 ^ exponent` is written by position. -/
def Layout.isPositional (layout : Layout) (exponent : Int) : Bool :=
  match layout.positional with
  | none => true
  | some (low, high) => low ≤ exponent && exponent ≤ high

/-- `digits · 10 ^ last` by position. -/
def positionalText (layout : Layout) (digits : List Char) (last : Int) : List Char :=
  if 0 ≤ last then
    digits ++ List.replicate last.toNat '0' ++ (if layout.keepsFraction then ['.', '0'] else [])
  else
    let places := (-last).toNat
    let whole := digits.take (digits.length - places)
    let fraction := digits.drop (digits.length - places)
    (if whole.isEmpty then ['0'] else whole) ++ '.' ::
      (List.replicate (places - fraction.length) '0' ++ fraction)

/-- The digits with a point after the first one, and the exponent of that digit. -/
def exponentText (digits : List Char) (exponent : Int) : List Char :=
  let fraction := digits.drop 1
  digits.take 1 ++ (if fraction.isEmpty then [] else '.' :: fraction) ++
    'e' :: (toString exponent).toList

/-- The text of a number in a layout. The undefined number shows no sign. -/
def text (layout : Layout) (d : Double) : String :=
  if d.isNaN then "NaN" else
  let unsigned :=
    if d.isInfinite then ['i', 'n', 'f']
    else if d.isZero then positionalText layout ['0'] 0
    else
      let (digits, last) := d.shortest
      let exponent := last + digits.length - 1
      if layout.isPositional exponent then positionalText layout digits last
      else exponentText digits exponent
  String.ofList (if d.isNegative then '-' :: unsigned else unsigned)

end DeltaCircuit.Double
