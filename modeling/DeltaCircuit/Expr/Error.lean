import DeltaCircuit.Expr.Text

/-!
# Errors of types and expressions

`TermError` lists every reason for which a type, an expression or a Z-set literal cannot be built.
The reasons fall into four groups, each with a code of its own (`TermError.group`), and every
error of the library belongs to one of three categories (`ErrorCategory`).

`TermError.message` is the only place that words a reason.
-/

namespace DeltaCircuit

/-- What an error says about the input: that it is valid but not supported, that declared and
actual types disagree, or that something is put together wrongly. -/
inductive ErrorCategory where
  | unimplemented | typeMismatch | malformed
deriving DecidableEq

def ErrorCategory.text : ErrorCategory → String
  | .unimplemented => "unimplemented"
  | .typeMismatch => "type mismatch"
  | .malformed => "malformed"

/-- The constructions whose operand types are checked. -/
inductive Site where
  | unification
  | literal
  | tuplePattern
  | literalPattern
  | binding (name : String)
  | fieldAccess
  | dereference
  | binary (op : BinaryOp)
  | unary (op : UnaryOp)
  | cast (operand : Expr)
  | call (function : Expr)
  | condition
  | branches
  | arm
  | loop
  | assignment (target : Expr)
  | structExpression
  | structField (struct field : String)
  | element
  | zsetSum
  /-- A condition of a relational plan, in its own text. -/
  | predicate (text : String)

/-- What was expected at a site, or found there. -/
inductive Shape where
  | type (type : Ty)
  | noType
  | convertibleFrom (type : Ty)
  | both (left right : Ty)
  | words (text : String)

/-- Why a type, an expression or a Z-set literal cannot be built. -/
inductive TermError where
  | noConstant (type : Ty)
  | mismatch (site : Site) (expected found : Shape)
  | nullableReference (type : Ty)
  | nonNullableNull
  | nullAtNonNullable (type : Ty)
  | outOfRange (type : Ty) (value : Int)
  | patternSize (pattern : Pattern) (type : Ty) (components fields : Nat)
  | untyped (expr : Expr)
  | noField (base : Expr) (index : Nat) (tuple : Ty) (fields : Nat)
  | untypedField (raw : Bool)
  | argumentCount (function : Expr) (expected actual : Nat)
  | noArms (subject : Expr)
  | bodyNotBlock (pattern : Pattern) (iterated : Expr)
  | notAssignable (target : Expr)
  | fieldCount (struct : String) (expected actual : Nat)
  | noElements
  | weightOverflow (element : Expr)

/-- The groups that carry a code. -/
inductive TermErrorGroup where
  | unimplemented | typeMismatch | malformed | weightOverflow
deriving DecidableEq

/-! ### Wording -/

def Site.text : Site → String
  | .unification => "type unification"
  | .literal => "literal"
  | .tuplePattern => "tuple pattern"
  | .literalPattern => "literal pattern"
  | .binding name => "let " ++ name
  | .fieldAccess => "field access"
  | .dereference => "dereference"
  | .binary op => "operator " ++ op.text
  | .unary op => "operator " ++ op.text
  | .cast operand => "cast of " ++ operand.text
  | .call function => "call of " ++ function.text
  | .condition => "if condition"
  | .branches => "if branches"
  | .arm => "match arm"
  | .loop => "for loop"
  | .assignment target => "assignment to " ++ target.text
  | .structExpression => "struct expression"
  | .structField struct field => "field " ++ struct ++ "." ++ field
  | .element => "Z-set element"
  | .zsetSum => "Z-set addition"
  | .predicate text => "predicate " ++ text

def Shape.text : Shape → String
  | .type t => t.text
  | .noType => "no type"
  | .convertibleFrom t => "a type convertible from " ++ t.text
  | .both l r => l.text ++ " and " ++ r.text
  | .words s => s

/-- The static type of an expression, or its absence. -/
def Shape.ofType : Option Ty → Shape
  | none => .noType
  | some t => .type t

namespace TermError

def group : TermError → TermErrorGroup
  | noConstant _ => .unimplemented
  | mismatch _ _ _ => .typeMismatch
  | weightOverflow _ => .weightOverflow
  | _ => .malformed

def category (e : TermError) : ErrorCategory :=
  match e.group with
  | .unimplemented => .unimplemented
  | .typeMismatch => .typeMismatch
  | .malformed | .weightOverflow => .malformed

/-- A malformed node and what is wrong with it. -/
def malformedText (node reason : String) : String := "[IR003] Malformed " ++ node ++ ": " ++ reason

/-- The wording of an error, with the code of its group. -/
def message : TermError → String
  | noConstant type => "[IR001] Unimplemented: numeric constant for type " ++ type.text
  | mismatch site expected found =>
    "[IR002] Type mismatch in " ++ site.text ++ ": expected " ++ expected.text ++ ", found " ++
      found.text
  | nullableReference type =>
    malformedText ("type " ++ type.text) "reference types cannot be nullable"
  | nonNullableNull => malformedText "type ()" "the NULL type is always nullable"
  | nullAtNonNullable type =>
    malformedText ("literal of type " ++ type.text) "NULL value requires a nullable type"
  | outOfRange type value =>
    malformedText ("literal of type " ++ type.text) ("value " ++ toString value ++ " out of range")
  | patternSize pattern type components fields =>
    malformedText ("pattern " ++ pattern.text)
      ("pattern has " ++ toString components ++ " components but type " ++ type.text ++ " has " ++
        toString fields)
  | untyped expr => malformedText ("expression " ++ expr.text) "has no type"
  | noField base index tuple fields =>
    malformedText ("field access " ++ base.text ++ "." ++ toString index)
      ("type " ++ tuple.text ++ " has " ++ toString fields ++ " fields")
  | untypedField raw =>
    malformedText (if raw then "raw tuple" else "tuple") "tuple field has no type"
  | argumentCount function expected actual =>
    malformedText ("call of " ++ function.text)
      ("expected " ++ toString expected ++ " arguments, got " ++ toString actual)
  | noArms subject => malformedText ("match on " ++ subject.text) "no cases"
  | bodyNotBlock pattern iterated =>
    malformedText ("for " ++ pattern.text ++ " in " ++ iterated.text) "loop body is not a block"
  | notAssignable target =>
    malformedText ("assignment to " ++ target.text) "target is not assignable"
  | fieldCount struct expected actual =>
    malformedText ("struct " ++ struct)
      ("expected " ++ toString expected ++ " fields, got " ++ toString actual)
  | noElements =>
    malformedText "Z-set literal" "cannot infer element type from no elements"
  | weightOverflow element => "[IR004] Weight overflow while combining " ++ element.text

end TermError
end DeltaCircuit
