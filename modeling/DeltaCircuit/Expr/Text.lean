import DeltaCircuit.Expr.Basic
import DeltaCircuit.Ty.Text

/-!
# Texts of expressions

`Expr.text`, `Pattern.text`, `Statement.text` and `ZSetLiteral.text` write the syntax the way
generated programs and messages show it. Binary operators and conversions carry their own
parentheses, so a text shows the tree without any precedence.
-/

namespace DeltaCircuit

/-! ### Operators -/

def ArithmeticOp.text : ArithmeticOp → String
  | .add => "+"
  | .sub => "-"
  | .mul => "*"
  | .div => "/"
  | .mod => "%"

def ComparisonOp.text : ComparisonOp → String
  | .eq => "=="
  | .neq => "!="
  | .lt => "<"
  | .lte => "<="
  | .gt => ">"
  | .gte => ">="

def LogicalOp.text : LogicalOp → String
  | .and => "&&"
  | .or => "||"

def AggregateOp.text : AggregateOp → String
  | .plus => "agg_plus"
  | .min => "agg_min"
  | .max => "agg_max"

def BinaryOp.text : BinaryOp → String
  | .arithmetic op => op.text
  | .comparison op => op.text
  | .logical op => op.text
  | .concat => "++"
  | .aggregate op => op.text

def UnaryOp.text : UnaryOp → String
  | .not => "!"
  | .neg => "-"
  | .plus => "+"
  | .isNull => "is_none"
  | .isNotNull => "is_some"
  | .wrapBool => "wrap_bool"

def BinaryOp.ofText? (text : String) : Option BinaryOp := all.find? fun op => op.text == text

def UnaryOp.ofText? (text : String) : Option UnaryOp := all.find? fun op => op.text == text

theorem BinaryOp.ofText?_text (op : BinaryOp) : ofText? op.text = some op := by
  cases op with
  | arithmetic op => cases op <;> rfl
  | comparison op => cases op <;> rfl
  | logical op => cases op <;> rfl
  | concat => rfl
  | aggregate op => cases op <;> rfl

theorem UnaryOp.ofText?_text (op : UnaryOp) : ofText? op.text = some op := by
  cases op <;> rfl

/-! ### Parts without sub-expressions -/

/-- Statements and arms between braces, each followed by a space. -/
def braced (items : List String) : String :=
  "\x7b " ++ String.join (items.map (· ++ " ")) ++ "\x7d"

/-- A literal. NULL names the type it stands at, and a value of a type that admits NULL is
wrapped. -/
def literalText (type : Option Ty) (value : Option Literal) : String :=
  match value, type with
  | none, none => "None"
  | none, some t => "None::<" ++ Ty.text { t with nullable := false } ++ ">"
  | some v, none => v.text
  | some v, some t => if t.nullable then "Some(" ++ v.text ++ ")" else v.text

/-- The name of a struct type, for its constructor. -/
def structName (type : Option Ty) : String :=
  match type with
  | some ⟨.struct name _, _⟩ => name ++ "::"
  | _ => ""

def pathText (segments : List String) : String := "::".intercalate segments

/-- A binary operation. Aggregate operators are written as functions. -/
def binaryText (op : BinaryOp) (left right : String) : String :=
  match op with
  | .aggregate op => op.text ++ "(" ++ left ++ ", " ++ right ++ ")"
  | op => "(" ++ left ++ " " ++ op.text ++ " " ++ right ++ ")"

/-- A unary operation: an operator sign, a method or a function. -/
def unaryText (op : UnaryOp) (operand : String) : String :=
  match op with
  | .not | .neg | .plus => "(" ++ op.text ++ operand ++ ")"
  | .isNull | .isNotNull => operand ++ "." ++ op.text ++ "()"
  | .wrapBool => op.text ++ "(" ++ operand ++ ")"

def mutableText (mutable : Bool) : String := if mutable then "mut " else ""

/-- A type after a name. -/
def ascription (type : Option Ty) : String :=
  match type with
  | none => ""
  | some t => ": " ++ t.text

/-! ### The syntax -/

mutual

/-- The text of an expression. -/
def Expr.text : Expr → String
  | ⟨_, type, .literal value⟩ => literalText type value
  | ⟨_, _, .var name⟩ => name
  | ⟨_, _, .field base index⟩ => base.text ++ "." ++ toString index
  | ⟨_, _, .binary op left right⟩ => binaryText op left.text right.text
  | ⟨_, _, .unary op operand⟩ => unaryText op operand.text
  | ⟨_, some type, .cast operand⟩ => "(" ++ operand.text ++ " as " ++ type.text ++ ")"
  | ⟨_, none, .cast operand⟩ => operand.text
  | ⟨_, _, .apply function args⟩ =>
    function.text ++ "(" ++ commaSeparated (Expr.texts args) ++ ")"
  | ⟨_, _, .closure params body⟩ =>
    "move |" ++ commaSeparated (Parameter.texts params) ++ "| " ++ body.text
  | ⟨_, _, .block statements none⟩ => braced (Statement.texts statements)
  | ⟨_, _, .block statements (some last)⟩ => braced (Statement.texts statements ++ [last.text])
  | ⟨_, _, .ifElse condition positive none⟩ =>
    "if " ++ condition.text ++ " " ++ braced [positive.text]
  | ⟨_, _, .ifElse condition positive (some negative)⟩ =>
    "if " ++ condition.text ++ " " ++ braced [positive.text] ++ " else " ++ braced [negative.text]
  | ⟨_, _, .matchOn subject arms⟩ => "match " ++ subject.text ++ " " ++ braced (Arm.texts arms)
  | ⟨_, _, .forLoop pattern iterated block⟩ =>
    "for " ++ pattern.text ++ " in " ++ iterated.text ++ " " ++ block.text
  | ⟨_, _, .assign target value⟩ => target.text ++ " = " ++ value.text
  | ⟨_, _, .tuple fields⟩ =>
    "Tup" ++ toString fields.length ++ "::new(" ++ commaSeparated (Expr.texts fields) ++ ")"
  | ⟨_, _, .rawTuple fields⟩ => parenthesized (Expr.texts fields)
  | ⟨_, type, .struct fields⟩ =>
    structName type ++ "new(" ++ commaSeparated (Expr.texts fields) ++ ")"
  | ⟨_, _, .path segments⟩ => pathText segments
  | ⟨_, _, .qualify operand types⟩ =>
    operand.text ++ "::<" ++ commaSeparated (Ty.texts types) ++ ">"
  | ⟨_, _, .borrow operand mutable⟩ => "&" ++ mutableText mutable ++ operand.text
  | ⟨_, _, .deref operand⟩ => "(*" ++ operand.text ++ ")"
  | ⟨_, _, .zset literal⟩ => literal.text
termination_by structural x => x

/-- The text of a pattern. -/
def Pattern.text : Pattern → String
  | .identifier name mutable => mutableText mutable ++ name
  | .wildcard => "_"
  | .tuple fields => "(" ++ commaSeparated (Pattern.texts fields) ++ ")"
  | .literal value => value.text
termination_by structural x => x

/-- The text of a statement. -/
def Statement.text : Statement → String
  | .letBind name mutable type none =>
    "let " ++ mutableText mutable ++ name ++ ascription type ++ ";"
  | .letBind name mutable type (some init) =>
    "let " ++ mutableText mutable ++ name ++ ascription type ++ " = " ++ init.text ++ ";"
  | .eval expr => expr.text ++ ";"
termination_by structural x => x

/-- The text of a Z-set literal. -/
def ZSetLiteral.text : ZSetLiteral → String
  | ⟨_, entries⟩ => "zset!(" ++ commaSeparated (ZSetLiteral.entryTexts entries) ++ ")"
termination_by structural x => x

def Expr.texts : List Expr → List String
  | [] => []
  | e :: es => e.text :: Expr.texts es
termination_by structural x => x

def Pattern.texts : List Pattern → List String
  | [] => []
  | p :: ps => p.text :: Pattern.texts ps
termination_by structural x => x

def Statement.texts : List Statement → List String
  | [] => []
  | s :: ss => s.text :: Statement.texts ss
termination_by structural x => x

def Arm.texts : List Arm → List String
  | [] => []
  | ⟨pattern, result⟩ :: arms => (pattern.text ++ " => " ++ result.text ++ ",") :: Arm.texts arms
termination_by structural x => x

def Parameter.texts : List Parameter → List String
  | [] => []
  | ⟨pattern, type⟩ :: params => (pattern.text ++ ascription type) :: Parameter.texts params
termination_by structural x => x

def ZSetLiteral.entryTexts : List (Expr × Int) → List String
  | [] => []
  | (element, weight) :: entries =>
    (element.text ++ " => " ++ toString weight) :: ZSetLiteral.entryTexts entries
termination_by structural x => x

end

end DeltaCircuit
