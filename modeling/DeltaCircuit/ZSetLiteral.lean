import DeltaCircuit.Expr.Equality
import DeltaCircuit.Expr.Error
import DeltaCircuit.Weighted

/-!
# Z-set literals

The arithmetic of constant Z-sets. A literal has one element type, its elements are pairwise
different, and no stored weight is zero.

* `ZSetLiteral.weight` — the weight function of a literal.
* `ZSetLiteral.addElement`, `ZSetLiteral.add`, `ZSetLiteral.negate`, `ZSetLiteral.minus` — sums
  and differences, which fail on another element type and on a weight that does not fit.
-/

namespace DeltaCircuit

namespace ZSetLiteral

/-- The literal without elements. -/
def empty (elementType : Ty) : ZSetLiteral := ⟨elementType, []⟩

/-- The type of the literal as a collection. -/
def type (z : ZSetLiteral) : Ty := .zset z.elementType

/-- The number of different elements. -/
def size (z : ZSetLiteral) : Nat := z.entries.length

/-- The weight of an element. -/
def weight (z : ZSetLiteral) (e : Expr) : Int := Weighted.weight Expr.equal z.entries e

/-- Adds to the weight of an element, whatever its type. -/
def merge (z : ZSetLiteral) (element : Expr) (weight : Int) : Except TermError ZSetLiteral :=
  match Weighted.add? Expr.equal z.entries element weight with
  | some entries => .ok { z with entries }
  | none => .error (.weightOverflow element)

/-- Adds copies of an element of the literal's element type. -/
def addElement (z : ZSetLiteral) (element : Expr) (weight : Int) :
    Except TermError ZSetLiteral := do
  match element.type with
  | none => throw (.untyped element)
  | some found =>
    if found = z.elementType then z.merge element weight
    else throw (.mismatch .element (.type z.elementType) (.type found))

/-- Elements with the weight one for each occurrence, of the type of the first. -/
def ofElements (elements : List Expr) : Except TermError ZSetLiteral := do
  match elements with
  | [] => throw .noElements
  | first :: _ =>
    match first.type with
    | none => throw (.untyped first)
    | some type => elements.foldlM (fun z e => z.addElement e 1) (empty type)

/-- The sum of two literals over one element type. -/
def add (z other : ZSetLiteral) : Except TermError ZSetLiteral :=
  if other.elementType = z.elementType then
    other.entries.foldlM (fun z entry => z.merge entry.1 entry.2) z
  else .error (.mismatch .zsetSum (.type z.elementType) (.type other.elementType))

/-- Every weight with the other sign. -/
def negate (z : ZSetLiteral) : Except TermError ZSetLiteral := do
  let entries ← z.entries.mapM fun (element, weight) =>
    if Weighted.isWeight (-weight) then .ok (element, -weight)
    else .error (TermError.weightOverflow element)
  return { z with entries }

/-- The difference of two literals. -/
def minus (z other : ZSetLiteral) : Except TermError ZSetLiteral := do
  z.add (← other.negate)

end ZSetLiteral

/-- A Z-set literal as an expression. -/
def Expr.zset (z : ZSetLiteral) : Expr := ofForm (some z.type) (.zset z)

end DeltaCircuit
