import DeltaCircuit.Ty.Basic

/-!
# Texts of types

`Ty.text` writes a type the way generated programs and messages show it. A type whose values may
be NULL is wrapped in `Option<…>`; the NULL literal's own type is `()`, like the unit.
-/

namespace DeltaCircuit

/-- Texts with a comma and a space between them. -/
def commaSeparated (texts : List String) : String := ", ".intercalate texts

/-- A parenthesised list; a single component keeps a comma, so that it is not taken for a plain
parenthesis. -/
def parenthesized (texts : List String) : String :=
  "(" ++ commaSeparated texts ++ (if texts.length = 1 then ",)" else ")")

def FloatWidth.bits : FloatWidth → Nat
  | .w32 => 32
  | .w64 => 64

/-- The text of a kind without components. -/
def BaseKind.text : BaseKind → String
  | .bool => "bool"
  | .integer width signed => (if signed then "i" else "u") ++ toString width.bits
  | .float width => "f" ++ toString width.bits
  | .decimal => "Decimal"
  | .string => "String"
  | .str => "str"
  | .date => "Date"
  | .timestamp => "Timestamp"
  | .interval .millis => "ShortInterval"
  | .interval .months => "LongInterval"
  | .geoPoint => "GeoPoint"
  | .null => "()"
  | .any => "_"

/-- A name with its arguments in angle brackets, if it has any. -/
def withArguments (name : String) (args : List String) : String :=
  if args.isEmpty then name else name ++ "<" ++ commaSeparated args ++ ">"

mutual

def Ty.text : Ty → String
  | ⟨kind, nullable⟩ =>
    let plain := kind.text
    if nullable && kind ≠ .base .null then "Option<" ++ plain ++ ">" else plain
termination_by structural x => x

/-- The text of a kind. A struct shows its name only. -/
def Kind.text : Kind → String
  | .base b => b.text
  | .tuple fields => withArguments ("Tup" ++ toString fields.length) (Ty.texts fields)
  | .rawTuple fields => parenthesized (Ty.texts fields)
  | .struct name _ => name
  | .vec element => "Vec<" ++ element.text ++ ">"
  | .zset element weight => "OrdZSet<" ++ element.text ++ ", " ++ weight.text ++ ">"
  | .indexedZSet key value weight =>
    "OrdIndexedZSet<" ++ key.text ++ ", " ++ value.text ++ ", " ++ weight.text ++ ">"
  | .function none params => "fn(" ++ commaSeparated (Ty.texts params) ++ ")"
  | .function (some result) params =>
    "fn(" ++ commaSeparated (Ty.texts params) ++ ") -> " ++ result.text
  | .reference inner mutable => "&" ++ (if mutable then "mut " else "") ++ inner.text
  | .user name args => withArguments name (Ty.texts args)
termination_by structural x => x

/-- The texts of a list of types. -/
def Ty.texts : List Ty → List String
  | [] => []
  | t :: ts => t.text :: Ty.texts ts
termination_by structural x => x

end

end DeltaCircuit
