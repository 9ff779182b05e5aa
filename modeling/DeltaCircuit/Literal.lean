import DeltaCircuit.Calendar
import DeltaCircuit.Double.Layout
import DeltaCircuit.Text.Quoted
import DeltaCircuit.Ty.Basic

/-!
# Literal values

The values that a literal expression can carry. NULL is not among them: it is the absence of a
literal at a type that admits it.

* `Literal.same` — equality of the values, which differs from equality of the data only where
  floating point numbers do (`Double.same`).
* `Literal.text` — the value as programs show it.
* `Literal.fits` — whether the value has a kind, its range aside.
-/

namespace DeltaCircuit

/-- A value that is not NULL. -/
inductive Literal where
  | bool (value : Bool)
  | int (value : Int)
  | float (value : Double)
  /-- An exact decimal, kept as it was written. -/
  | decimal (digits : String)
  | string (value : String)
  | date (value : Date)
  | timestamp (value : Timestamp)
  /-- An interval, counted in the unit of its type. -/
  | interval (count : Int)
  | geoPoint (x y : Double)
deriving DecidableEq

namespace Literal

/-- The same literal with every floating point number replaced by the representative of those
that are the same. -/
def canonical : Literal → Literal
  | .float d => .float d.canonical
  | .geoPoint x y => .geoPoint x.canonical y.canonical
  | l => l

/-- Equality of the values. -/
def same (a b : Literal) : Bool := a.canonical = b.canonical

/-- Whether a literal has the kind of a type. -/
def fits : Literal → Kind → Bool
  | .bool _, .base .bool => true
  | .int _, .base (.integer _ _) => true
  | .float _, .base (.float _) => true
  | .decimal _, .base .decimal => true
  | .string _, .base .string | .string _, .base .str => true
  | .date _, .base .date => true
  | .timestamp _, .base .timestamp => true
  | .interval _, .base (.interval _) => true
  | .geoPoint _ _, .base .geoPoint => true
  | _, _ => false

/-- What a literal is, in words. -/
def describe : Literal → String
  | .bool _ => "bool value"
  | .int _ => "integer value"
  | .float _ => "float value"
  | .decimal _ => "decimal value"
  | .string _ => "string value"
  | .date _ => "date value"
  | .timestamp _ => "timestamp value"
  | .interval _ => "interval value"
  | .geoPoint _ _ => "geo point value"

/-- The text of a literal inside a program. -/
def text : Literal → String
  | .bool b => toString b
  | .int i => toString i
  | .float d => d.text .program
  | .decimal s => "Decimal::from_str(" ++ Text.quote s ++ ")"
  | .string s => Text.quote s
  | .date d => "Date::from(" ++ Text.quote d.text ++ ")"
  | .timestamp t => "Timestamp::from(" ++ Text.quote (t.text " ") ++ ")"
  | .interval i => "Interval::new(" ++ toString i ++ ")"
  | .geoPoint x y => "GeoPoint::new(" ++ x.text .program ++ ", " ++ y.text .program ++ ")"

end Literal
end DeltaCircuit
