import DeltaCircuit.Double.Arithmetic
import DeltaCircuit.Ty.Unify

/-!
# Building expressions

One function per form of expression. Each derives the type of the new node from its parts, or
checks the type it is given, and refuses parts that do not fit together.

* `Pattern.check` — whether a pattern can take a value of a type apart; references are looked
  through at every level.
* `Expr.literal`, `Expr.binary`, `Expr.closure`, … — the constructors. A node that they build has
  no identity yet (`Expr.identify`).
* `Ty.zero`, `Ty.one`, `Ty.least`, `Ty.greatest` — constants of a numeric type.

A call checks its arguments against the parameters that the function declares, and a parameter
whose type is left open accepts anything.
-/

namespace DeltaCircuit

/-! ### Types of parts -/

/-- The static type of an expression that has to have one. -/
def Expr.requireType (e : Expr) : Except TermError Ty :=
  match e.type with
  | some t => .ok t
  | none => .error (.untyped e)

/-- Refuses an operand that is no boolean and no reference to one. -/
def expectBool (site : Site) (e : Expr) : Except TermError Unit := do
  let t ← e.requireType
  if t.deref.isBool then pure () else throw (.mismatch site (.words "bool") (.type t))

/-- Refuses a result type that is not boolean. -/
def expectBoolType (site : Site) (t : Ty) : Except TermError Unit :=
  if t.isBool then pure () else throw (.mismatch site (.words "bool") (.type t))

/-- Refuses a result type that is not boolean or that admits NULL. -/
def expectTotalBoolType (site : Site) (t : Ty) : Except TermError Unit :=
  if t.isBool && !t.nullable then pure () else throw (.mismatch site (.words "bool") (.type t))

/-- The types of the fields of a tuple. -/
def fieldTypes (raw : Bool) (fields : List Expr) : Except TermError (List Ty) :=
  fields.mapM fun field =>
    match field.type with
    | some t => .ok t
    | none => .error (.untypedField raw)

/-! ### Patterns -/

mutual

/-- Whether the shape of a pattern fits a type. -/
def Pattern.check : Pattern → Ty → Except TermError Unit
  | .tuple fields, type =>
    match type.deref.tupleFields? with
    | none => .error (.mismatch .tuplePattern (.words "tuple type") (.type type))
    | some types =>
      if types.length = fields.length then Pattern.checkAll fields types
      else .error (.patternSize (.tuple fields) type fields.length types.length)
  | .literal value, type => do
    let found ← value.requireType
    if found.kind = type.deref.kind then pure ()
    else throw (.mismatch .literalPattern (.type type) (.type found))
  | .identifier _ _, _ => .ok ()
  | .wildcard, _ => .ok ()
termination_by structural x => x

/-- Checks patterns against types, one by one. -/
def Pattern.checkAll : List Pattern → List Ty → Except TermError Unit
  | pattern :: patterns, type :: types => do
    pattern.check type
    Pattern.checkAll patterns types
  | _, _ => .ok ()
termination_by structural x => x

end

mutual

/-- The names that a pattern binds, from left to right. -/
def Pattern.names : Pattern → List String
  | .identifier name _ => [name]
  | .tuple fields => Pattern.namesAll fields
  | .wildcard => []
  | .literal _ => []
termination_by structural x => x

def Pattern.namesAll : List Pattern → List String
  | [] => []
  | pattern :: patterns => pattern.names ++ Pattern.namesAll patterns
termination_by structural x => x

end

/-- The number of components that a tuple pattern takes apart. -/
def Pattern.arity? : Pattern → Option Nat
  | .tuple fields => some fields.length
  | _ => none

/-- A parameter that binds one name of a declared type. -/
def Parameter.named (name : String) (type : Ty) : Parameter := ⟨.identifier name false, some type⟩

namespace Expr

/-! ### Literals -/

/-- Whether a value can stand at a type. -/
def checkLiteral (value : Literal) (type : Ty) : Except TermError Unit :=
  match value, type.kind with
  | .int i, .base (.integer width signed) =>
    let (low, high) := width.range signed
    if i < low ∨ high < i then .error (.outOfRange type i) else .ok ()
  | value, kind =>
    if value.fits kind then .ok ()
    else .error (.mismatch .literal (.type type) (.words value.describe))

/-- A literal of a type; `none` is NULL. -/
def literal (value : Option Literal) (type : Ty) : Except TermError Expr := do
  match value with
  | none => if type.nullable then pure () else throw (.nullAtNonNullable type)
  | some v => checkLiteral v type
  return ofForm (some type) (.literal value)

/-- NULL of a type made to admit it. -/
def null (type : Ty) : Except TermError Expr := do
  literal none (← type.withNullable true)

def boolLiteral (value : Bool) : Expr := ofForm (some .bool) (.literal (some (.bool value)))

def i32Literal (value : Int) : Expr := ofForm (some .i32) (.literal (some (.int value)))

def i64Literal (value : Int) : Expr := ofForm (some .i64) (.literal (some (.int value)))

def f64Literal (value : Double) : Expr := ofForm (some .f64) (.literal (some (.float value)))

def stringLiteral (value : String) : Expr := ofForm (some .string) (.literal (some (.string value)))

/-- The value of an expression that is evaluated for its effect. -/
def unit : Expr := ofForm (some .unit) (.rawTuple [])

def isLiteral (e : Expr) : Bool :=
  match e.form with
  | .literal _ => true
  | _ => false

/-- The value of a boolean literal other than NULL. -/
def asBool? (e : Expr) : Option Bool :=
  match e.form with
  | .literal (some (.bool b)) => some b
  | _ => none

/-! ### References to values -/

def var (name : String) (type : Ty) : Expr := ofForm (some type) (.var name)

def path (segments : List String) (type : Ty) : Expr := ofForm (some type) (.path segments)

/-- A field of a tuple or of a reference to one. A field of a tuple that may be NULL may be
NULL. -/
def field (base : Expr) (index : Nat) : Except TermError Expr := do
  let found ← base.requireType
  let tuple := found.deref
  match tuple.tupleFields? with
  | none => throw (.mismatch .fieldAccess (.words "tuple") (.type found))
  | some types =>
    match types[index]? with
    | none => throw (.noField base index tuple types.length)
    | some type =>
      let type ← if tuple.nullable then type.withNullable true else pure type
      return ofForm (some type) (.field base index)

def borrow (operand : Expr) (mutable : Bool) : Except TermError Expr := do
  let type ← operand.requireType
  return ofForm (some (.reference type mutable)) (.borrow operand mutable)

def deref (operand : Expr) : Except TermError Expr := do
  let type ← operand.requireType
  match type.kind with
  | .reference inner _ => return ofForm (some inner) (.deref operand)
  | _ => throw (.mismatch .dereference (.words "reference") (.type type))

/-! ### Operations -/

/-- What the operand types of a binary operation and its declared type have to satisfy. -/
def checkBinary (op : BinaryOp) (left right : Expr) (leftType rightType type : Ty) :
    Except TermError Unit :=
  let site := Site.binary op
  /- Operands of one group, whose unification is the declared type. -/
  let arithmetic (fits : Ty → Bool) (expected : String) : Except TermError Unit := do
    let l := leftType.deref
    let r := rightType.deref
    if fits l && fits r then
      let result ← l.unify r
      if result = type then pure () else throw (.mismatch site (.type result) (.type type))
    else throw (.mismatch site (.words expected) (.both l r))
  match op with
  | .logical _ => do
    expectBool site left
    expectBool site right
    expectBoolType site type
  | .comparison _ => do
    if leftType.deref.kind = rightType.deref.kind then expectBoolType site type
    else throw (.mismatch site (.type leftType) (.type rightType))
  | .aggregate _ =>
    if leftType.kind = rightType.kind then pure ()
    else throw (.mismatch site (.type leftType) (.type rightType))
  | .concat => arithmetic Ty.isText "string operands"
  | .arithmetic _ => arithmetic Ty.isNumeric "numeric operands"

/-- A binary operation with its declared type. -/
def binary (op : BinaryOp) (left right : Expr) (type : Ty) : Except TermError Expr := do
  let leftType ← left.requireType
  let rightType ← right.requireType
  checkBinary op left right leftType rightType type
  return ofForm (some type) (.binary op left right)

/-- What the operand of a unary operation and its declared type have to satisfy. -/
def checkUnary (op : UnaryOp) (operand : Expr) (type : Ty) : Except TermError Unit :=
  let site := Site.unary op
  match op with
  | .not => do
    expectBool site operand
    expectBoolType site type
  | .wrapBool => do
    expectBool site operand
    expectTotalBoolType site type
  | .isNull | .isNotNull => expectTotalBoolType site type
  | .neg | .plus => do
    let found ← operand.requireType
    if found.isNumeric then pure ()
    else throw (.mismatch site (.words "numeric type") (.type found))

/-- A unary operation with its declared type. -/
def unary (op : UnaryOp) (operand : Expr) (type : Ty) : Except TermError Expr := do
  checkUnary op operand type
  return ofForm (some type) (.unary op operand)

/-- The negation of a boolean, at the type of its operand. -/
def not (operand : Expr) : Except TermError Expr := do
  unary .not operand (← operand.requireType)

/-- A conjunction, which may be NULL if one of its operands may. -/
def and (left right : Expr) : Except TermError Expr := do
  let leftType ← left.requireType
  let rightType ← right.requireType
  let type ← Ty.bool.withNullable (leftType.nullable || rightType.nullable)
  binary (.logical .and) left right type

/-- Whether a conversion exists. Scalars convert into each other; any other type only changes its
nullability, and NULL goes to any type that admits it. -/
def convertible (source type : Ty) : Bool :=
  source.kind = type.kind || (source.isScalar && type.isScalar) ||
    (source.kind = .base .null && type.nullable)

/-- A conversion to a type. -/
def cast (operand : Expr) (type : Ty) : Except TermError Expr := do
  let source ← operand.requireType
  if convertible source type then return ofForm (some type) (.cast operand)
  else throw (.mismatch (.cast operand) (.convertibleFrom source) (.type type))

/-- A conversion to a type, left out where the operand has it already. -/
def castIfNeeded (operand : Expr) (type : Ty) : Except TermError Expr := do
  let source ← operand.requireType
  if source = type then return operand else cast operand type

/-- Checks arguments against parameters, one by one. -/
def checkArguments (function : Expr) : List Ty → List Expr → Except TermError Unit
  | param :: params, arg :: args => do
    let found ← arg.requireType
    if param.kind = .base .any || param = found then checkArguments function params args
    else throw (.mismatch (.call function) (.type param) (.type found))
  | _, _ => .ok ()

/-- A call with its declared result type. -/
def apply (function : Expr) (args : List Expr) (type : Ty) : Except TermError Expr := do
  let found ← function.requireType
  match found.kind with
  | .function result params =>
    if params.length ≠ args.length then
      throw (.argumentCount function params.length args.length)
    checkArguments function params args
    match result with
    | some result =>
      if result ≠ type then throw (.mismatch (.call function) (.type result) (.type type))
    | none => pure ()
    return ofForm (some type) (.apply function args)
  | _ => throw (.mismatch (.call function) (.words "function") (.type found))

/-! ### Functions and control flow -/

/-- The type that a closure declares for a parameter. -/
def parameterType (param : Parameter) : Ty := param.type.getD .any

/-- Checks the patterns of parameters against their declared types. -/
def checkParameters : List Parameter → Except TermError Unit
  | [] => .ok ()
  | ⟨pattern, some type⟩ :: params => do
    pattern.check type
    checkParameters params
  | ⟨_, none⟩ :: params => checkParameters params

/-- A closure, whose type is that of its parameters and its body. -/
def closure (params : List Parameter) (body : Expr) : Except TermError Expr := do
  checkParameters params
  return ofForm (some (.function body.type (params.map parameterType))) (.closure params body)

/-- The parameters of a closure. -/
def params? (e : Expr) : Option (List Parameter) :=
  match e.form with
  | .closure params _ => some params
  | _ => none

/-- The function type of a closure. -/
def functionType? (e : Expr) : Option Ty :=
  match e.form with
  | .closure _ _ => e.type
  | _ => none

/-- The result type of a closure. -/
def resultType? (e : Expr) : Option Ty :=
  match e.functionType? with
  | some ⟨.function result _, _⟩ => result
  | _ => none

/-- A block; its type is that of its last expression. -/
def block (statements : List Statement) (last : Option Expr) : Expr :=
  ofForm (last.bind Expr.type) (.block statements last)

/-- A choice. Without a second branch it gives no value. -/
def ifElse (condition positive : Expr) (negative : Option Expr) : Except TermError Expr := do
  expectBool .condition condition
  match negative with
  | none => return ofForm none (.ifElse condition positive none)
  | some other =>
    if positive.type = other.type then
      return ofForm positive.type (.ifElse condition positive (some other))
    else throw (.mismatch .branches (.ofType positive.type) (.ofType other.type))

/-- Checks the arms of a match. -/
def checkArms (subject type : Ty) : List Arm → Except TermError Unit
  | [] => .ok ()
  | ⟨pattern, result⟩ :: arms => do
    pattern.check subject
    let found ← result.requireType
    if found = type then checkArms subject type arms
    else throw (.mismatch .arm (.type type) (.type found))

/-- A match with the declared type of its arms. -/
def matchOn (subject : Expr) (arms : List Arm) (type : Ty) : Except TermError Expr := do
  if arms.isEmpty then throw (.noArms subject)
  let subjectType ← subject.requireType
  checkArms subjectType type arms
  return ofForm (some type) (.matchOn subject arms)

def isBlock (e : Expr) : Bool :=
  match e.form with
  | .block _ _ => true
  | _ => false

/-- A loop over the elements of a vector or of a reference to one. -/
def forLoop (pattern : Pattern) (iterated block : Expr) : Except TermError Expr := do
  if !block.isBlock then throw (.bodyNotBlock pattern iterated)
  let type ← iterated.requireType
  match type.deref.kind with
  | .vec element => pattern.check element
  | _ => throw (.mismatch .loop (.words "Vec") (.type type))
  return ofForm (some .unit) (.forLoop pattern iterated block)

def isAssignable (e : Expr) : Bool :=
  match e.form with
  | .var _ | .field _ _ => true
  | _ => false

/-- An assignment to a variable or a field, of a value of the same type. -/
def assign (target value : Expr) : Except TermError Expr := do
  if !target.isAssignable then throw (.notAssignable target)
  let targetType ← target.requireType
  let valueType ← value.requireType
  if targetType = valueType then return ofForm (some .unit) (.assign target value)
  else throw (.mismatch (.assignment target) (.type targetType) (.type valueType))

/-! ### Constructors of values -/

def tuple (fields : List Expr) : Except TermError Expr := do
  return ofForm (some (.tuple (← fieldTypes false fields))) (.tuple fields)

def rawTuple (fields : List Expr) : Except TermError Expr := do
  return ofForm (some (.rawTuple (← fieldTypes true fields))) (.rawTuple fields)

/-- Checks fields against the declaration of a struct, one by one. -/
def checkFields (name : String) : List StructField → List Expr → Except TermError Unit
  | declared :: rest, field :: fields => do
    let found ← field.requireType
    if found = declared.type then checkFields name rest fields
    else throw (.mismatch (.structField name declared.name) (.type declared.type) (.type found))
  | _, _ => .ok ()

def struct (type : Ty) (fields : List Expr) : Except TermError Expr := do
  match type.kind with
  | .struct name declared =>
    if declared.length ≠ fields.length then
      throw (.fieldCount name declared.length fields.length)
    checkFields name declared fields
    return ofForm (some type) (.struct fields)
  | _ => throw (.mismatch .structExpression (.words "struct type") (.type type))

/-- Explicit type arguments. -/
def qualify (operand : Expr) (types : List Ty) : Except TermError Expr := do
  let type ← operand.requireType
  return ofForm (some type) (.qualify operand types)

end Expr

/-! ### Statements -/

/-- A binding whose type is that of its initial value. -/
def Statement.binding (name : String) (init : Expr) (mutable : Bool) : Statement :=
  .letBind name mutable init.type (some init)

/-- A binding with a declared type, which has to be that of its initial value. -/
def Statement.typedBinding (name : String) (type : Ty) (init : Expr) (mutable : Bool) :
    Except TermError Statement := do
  let found ← init.requireType
  if found = type then return .letBind name mutable (some type) (some init)
  else throw (.mismatch (.binding name) (.type type) (.type found))

/-- A variable without an initial value. -/
def Statement.declaration (name : String) (type : Ty) (mutable : Bool) : Statement :=
  .letBind name mutable (some type) none

/-! ### Numeric constants -/

namespace Ty

/-- The largest finite number of a width. -/
def greatestFloat : FloatWidth → Double
  | .w32 => Double.nearest false (Nat.pow 2 24 - 1) 104
  | .w64 => Double.nearest false (Nat.pow 2 53 - 1) 971

/-- A constant of a numeric type, from its integer, floating point or decimal form. -/
def constant (t : Ty) (ofInt : Int × Int → Int) (ofFloat : FloatWidth → Double)
    (decimal : Option String) : Except TermError Expr :=
  match t.kind, decimal with
  | .base (.integer width signed), _ =>
    Expr.literal (some (.int (ofInt (width.range signed)))) t
  | .base (.float width), _ => Expr.literal (some (.float (ofFloat width))) t
  | .base .decimal, some digits => Expr.literal (some (.decimal digits)) t
  | _, _ => .error (.noConstant t)

def zero (t : Ty) : Except TermError Expr :=
  t.constant (fun _ => 0) (fun _ => Double.zero false) (some "0")

def one (t : Ty) : Except TermError Expr :=
  t.constant (fun _ => 1) (fun _ => Double.ofInt 1) (some "1")

/-- The smallest value of a numeric type; decimals have none. -/
def least (t : Ty) : Except TermError Expr :=
  t.constant Prod.fst (fun width => (greatestFloat width).neg) none

/-- The largest value of a numeric type; decimals have none. -/
def greatest (t : Ty) : Except TermError Expr :=
  t.constant Prod.snd greatestFloat none

end Ty
end DeltaCircuit
