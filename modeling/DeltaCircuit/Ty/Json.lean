import DeltaCircuit.Json.Basic
import DeltaCircuit.Ty.Unify

/-!
# Types as JSON

A type is written as an object with the fields `kind` and `may_be_null`. A kind without
components is its name; any other kind is an object whose only field is named for the kind.

* `Ty.toJson` — writes a type.
* `Ty.ofJson` — reads one. The two fields of a type have to be there and no others may; inside a
  kind, unknown fields are skipped. A type and a struct field may also be written as the array of
  their values. The nullability of every type that is read is checked (`Ty.withNullable`).

What stands in the fields of each kind is one table, `layout?`.
-/

namespace DeltaCircuit

/-! ### Names -/

def IntWidth.name : IntWidth → String
  | .w8 => "I8"
  | .w16 => "I16"
  | .w32 => "I32"
  | .w64 => "I64"

def FloatWidth.name : FloatWidth → String
  | .w32 => "F32"
  | .w64 => "F64"

def IntervalUnit.name : IntervalUnit → String
  | .millis => "Millis"
  | .months => "Months"

/-- The choice that a name stands for. -/
def ofName? {α : Type} (name : α → String) (choices : List α) (s : String) : Option α :=
  choices.find? fun choice => name choice == s

def IntWidth.all : List IntWidth := [.w8, .w16, .w32, .w64]

def FloatWidth.all : List FloatWidth := [.w32, .w64]

def IntervalUnit.all : List IntervalUnit := [.millis, .months]

/-- The kinds that are written as a bare name. -/
def BaseKind.ofName? : String → Option BaseKind
  | "Bool" => some .bool
  | "Decimal" => some .decimal
  | "String" => some .string
  | "Str" => some .str
  | "Date" => some .date
  | "Timestamp" => some .timestamp
  | "GeoPoint" => some .geoPoint
  | "Null" => some .null
  | "Any" => some .any
  | _ => none

/-! ### Writing -/

/-- A kind with components, written under its name. -/
def tagged (name : String) (content : Json) : Json := .object [(name, content)]

def BaseKind.toJson : BaseKind → Json
  | .bool => .string "Bool"
  | .integer width signed =>
    tagged "Integer" (.object [("bits", .string width.name), ("signed", .bool signed)])
  | .float width => tagged "Float" (.object [("bits", .string width.name)])
  | .decimal => .string "Decimal"
  | .string => .string "String"
  | .str => .string "Str"
  | .date => .string "Date"
  | .timestamp => .string "Timestamp"
  | .interval unit => tagged "Interval" (.string unit.name)
  | .geoPoint => .string "GeoPoint"
  | .null => .string "Null"
  | .any => .string "Any"

mutual

def Ty.toJson : Ty → Json
  | ⟨kind, nullable⟩ => .object [("kind", kind.toJson), ("may_be_null", .bool nullable)]
termination_by structural x => x

def Kind.toJson : Kind → Json
  | .base b => b.toJson
  | .tuple fields => tagged "Tuple" (.array (Ty.toJsonAll fields))
  | .rawTuple fields => tagged "RawTuple" (.array (Ty.toJsonAll fields))
  | .struct name fields =>
    tagged "Struct" (.object
      [("name", .string name), ("fields", .array (StructField.toJsonAll fields))])
  | .vec element => tagged "Vec" element.toJson
  | .zset element weight =>
    tagged "ZSet" (.object [("element", element.toJson), ("weight", weight.toJson)])
  | .indexedZSet key value weight =>
    tagged "IndexedZSet" (.object
      [("key", key.toJson), ("value", value.toJson), ("weight", weight.toJson)])
  | .function none params =>
    tagged "Function" (.object [("result", .null), ("params", .array (Ty.toJsonAll params))])
  | .function (some result) params =>
    tagged "Function" (.object
      [("result", result.toJson), ("params", .array (Ty.toJsonAll params))])
  | .reference inner mutable =>
    tagged "Reference" (.object [("inner", inner.toJson), ("mutable", .bool mutable)])
  | .user name args =>
    tagged "User" (.object [("name", .string name), ("args", .array (Ty.toJsonAll args))])
termination_by structural x => x

def Ty.toJsonAll : List Ty → List Json
  | [] => []
  | t :: ts => t.toJson :: Ty.toJsonAll ts
termination_by structural x => x

def StructField.toJsonAll : List StructField → List Json
  | [] => []
  | ⟨name, type⟩ :: fields =>
    .object [("name", .string name), ("ty", type.toJson)] :: StructField.toJsonAll fields
termination_by structural x => x

end

/-! ### The parts of kinds -/

/-- Why a JSON value is no type: it has another shape, or a type in it is invalid. -/
inductive TypeReadError where
  | shape
  | invalid (cause : TermError)

/-- What the field of a kind holds. -/
inductive PartShape where
  | name | flag | type | typeOrNull | types | structFields | intWidth | floatWidth | unit

/-- The content of a field of a kind. -/
inductive Part where
  | name (value : String)
  | flag (value : Bool)
  | type (value : Ty)
  | noType
  | types (value : List Ty)
  | structFields (value : List StructField)
  | intWidth (value : IntWidth)
  | floatWidth (value : FloatWidth)
  | unit (value : IntervalUnit)

/-- How the components of a kind are written: as one value, or under the names of fields. -/
inductive KindLayout where
  | single (shape : PartShape)
  | fields (fields : List (String × PartShape))

/-- The layout of each kind with components. -/
def layout? : String → Option KindLayout
  | "Integer" => some (.fields [("bits", .intWidth), ("signed", .flag)])
  | "Float" => some (.fields [("bits", .floatWidth)])
  | "Interval" => some (.single .unit)
  | "Tuple" => some (.single .types)
  | "RawTuple" => some (.single .types)
  | "Struct" => some (.fields [("name", .name), ("fields", .structFields)])
  | "Vec" => some (.single .type)
  | "ZSet" => some (.fields [("element", .type), ("weight", .type)])
  | "IndexedZSet" => some (.fields [("key", .type), ("value", .type), ("weight", .type)])
  | "Function" => some (.fields [("result", .typeOrNull), ("params", .types)])
  | "Reference" => some (.fields [("inner", .type), ("mutable", .flag)])
  | "User" => some (.fields [("name", .name), ("args", .types)])
  | _ => none

/-- The kind of a name and its parts, in the order of the layout. -/
def kindOfParts? : String → List Part → Option Kind
  | "Integer", [.intWidth width, .flag signed] => some (.base (.integer width signed))
  | "Float", [.floatWidth width] => some (.base (.float width))
  | "Interval", [.unit unit] => some (.base (.interval unit))
  | "Tuple", [.types fields] => some (.tuple fields)
  | "RawTuple", [.types fields] => some (.rawTuple fields)
  | "Struct", [.name name, .structFields fields] => some (.struct name fields)
  | "Vec", [.type element] => some (.vec element)
  | "ZSet", [.type element, .type weight] => some (.zset element weight)
  | "IndexedZSet", [.type key, .type value, .type weight] => some (.indexedZSet key value weight)
  | "Function", [.type result, .types params] => some (.function (some result) params)
  | "Function", [.noType, .types params] => some (.function none params)
  | "Reference", [.type inner, .flag mutable] => some (.reference inner mutable)
  | "User", [.name name, .types args] => some (.user name args)
  | _, _ => none

/-- A value that has the shape or else is refused. -/
def orShape {α : Type} (value : Option α) : Except TypeReadError α :=
  match value with
  | some a => .ok a
  | none => .error .shape

/-- The parts of a layout, found by name. Only a type that may be missing has a default. -/
def orderParts (layout : List (String × PartShape)) (parts : List (String × Part)) :
    Except TypeReadError (List Part) :=
  layout.mapM fun (name, shape) =>
    match parts.lookup name, shape with
    | some part, _ => .ok part
    | none, .typeOrNull => .ok .noType
    | none, _ => .error .shape

/-- The name of a choice without content, written bare or with a null. -/
def choiceName? : Json → Option String
  | .string s => some s
  | .object [(s, .null)] => some s
  | _ => none

/-- A type from its kind and its nullability. -/
def checkedType (kind : Option Kind) (nullable : Option Bool) : Except TypeReadError Ty :=
  match kind, nullable with
  | some kind, some nullable =>
    match (Ty.ofKind kind).withNullable nullable with
    | .ok t => .ok t
    | .error cause => .error (.invalid cause)
  | _, _ => .error .shape

/-- A struct field from its name and its type. -/
def checkedField (name : Option String) (type : Option Ty) : Except TypeReadError StructField :=
  match name, type with
  | some name, some type => .ok ⟨name, type⟩
  | _, _ => .error .shape

/-- The part of a value that a shape asks for, out of the readings of the value as a type, as a list
of types and as a list of struct fields. -/
def partOf (shape : PartShape) (value : Json) (type : Unit → Except TypeReadError Ty)
    (types : Unit → Except TypeReadError (List Ty))
    (structFields : Unit → Except TypeReadError (List StructField)) :
    Except TypeReadError Part :=
  match shape with
  | .name => (orShape value.asString?).map .name
  | .flag => (orShape value.asBool?).map .flag
  | .type => (type ()).map .type
  | .typeOrNull => if value matches .null then .ok .noType else (type ()).map .type
  | .types => (types ()).map .types
  | .structFields => (structFields ()).map .structFields
  | .intWidth =>
    (orShape ((choiceName? value).bind (ofName? IntWidth.name IntWidth.all))).map .intWidth
  | .floatWidth =>
    (orShape ((choiceName? value).bind (ofName? FloatWidth.name FloatWidth.all))).map .floatWidth
  | .unit =>
    (orShape ((choiceName? value).bind (ofName? IntervalUnit.name IntervalUnit.all))).map .unit

/-! ### Reading -/

mutual

/-- Reads a type. -/
def Ty.ofJson : Json → Except TypeReadError Ty
  | .object fields => Ty.ofFields fields none none
  | .array (kind :: rest) => do
    let kind ← Kind.ofJson kind
    match rest with
    | [nullable] => checkedType (some kind) nullable.asBool?
    | _ => .error .shape
  | _ => .error .shape
termination_by structural x => x

/-- Reads the fields of a type in their order; `kind` and `nullable` are those read already. -/
def Ty.ofFields :
    List (String × Json) → (kind : Option Kind) → (nullable : Option Bool) →
      Except TypeReadError Ty
  | [], kind, nullable => checkedType kind nullable
  | (name, value) :: fields, kind, nullable =>
    if name = "kind" then do
      let kind ← Kind.ofJson value
      Ty.ofFields fields (some kind) nullable
    else if name = "may_be_null" then do
      let nullable ← orShape value.asBool?
      Ty.ofFields fields kind (some nullable)
    else .error .shape
termination_by structural x => x

/-- Reads a kind. -/
def Kind.ofJson : Json → Except TypeReadError Kind
  | .string name => (orShape (BaseKind.ofName? name)).map .base
  | .object [(name, content)] =>
    match BaseKind.ofName? name, layout? name with
    | some b, _ => if content matches .null then .ok (.base b) else .error .shape
    | none, some (.single shape) => do
      let part ← partOf shape content (fun _ => Ty.ofJson content) (fun _ => Ty.ofArray content)
        (fun _ => StructField.ofArray content)
      orShape (kindOfParts? name [part])
    | none, some (.fields layout) => do
      let parts ← Part.ofContent content layout
      orShape (kindOfParts? name parts)
    | none, none => .error .shape
  | _ => .error .shape
termination_by structural x => x

/-- Reads the parts of a kind. -/
def Part.ofContent :
    Json → (layout : List (String × PartShape)) → Except TypeReadError (List Part)
  | .object fields, layout => do orderParts layout (← Part.ofFields fields layout)
  | _, _ => .error .shape
termination_by structural x => x

/-- Reads the named parts of a kind in their order. -/
def Part.ofFields :
    List (String × Json) → (layout : List (String × PartShape)) →
      Except TypeReadError (List (String × Part))
  | [], _ => .ok []
  | (name, value) :: fields, layout =>
    match layout.lookup name with
    | none => Part.ofFields fields layout
    | some shape => do
      let part ← partOf shape value (fun _ => Ty.ofJson value) (fun _ => Ty.ofArray value)
        (fun _ => StructField.ofArray value)
      let parts ← Part.ofFields fields layout
      return (name, part) :: parts
termination_by structural x => x

/-- Reads an array of types. -/
def Ty.ofArray : Json → Except TypeReadError (List Ty)
  | .array items => Ty.ofJsonAll items
  | _ => .error .shape
termination_by structural x => x

def Ty.ofJsonAll : List Json → Except TypeReadError (List Ty)
  | [] => .ok []
  | item :: items => do
    let type ← Ty.ofJson item
    let types ← Ty.ofJsonAll items
    return type :: types
termination_by structural x => x

/-- Reads an array of struct fields. -/
def StructField.ofArray : Json → Except TypeReadError (List StructField)
  | .array items => StructField.ofJsonAll items
  | _ => .error .shape
termination_by structural x => x

def StructField.ofJsonAll : List Json → Except TypeReadError (List StructField)
  | [] => .ok []
  | item :: items => do
    let field ← StructField.ofJson item
    let fields ← StructField.ofJsonAll items
    return field :: fields
termination_by structural x => x

/-- Reads a struct field. -/
def StructField.ofJson : Json → Except TypeReadError StructField
  | .object fields => StructField.ofFields fields none none
  | .array (name :: type :: rest) => do
    let name ← orShape name.asString?
    let type ← Ty.ofJson type
    if rest.isEmpty then return ⟨name, type⟩ else throw .shape
  | _ => .error .shape
termination_by structural x => x

/-- Reads the fields of a struct field in their order. -/
def StructField.ofFields :
    List (String × Json) → (name : Option String) → (type : Option Ty) →
      Except TypeReadError StructField
  | [], name, type => checkedField name type
  | (field, value) :: fields, name, type =>
    if field = "name" then do
      let name ← orShape value.asString?
      StructField.ofFields fields (some name) type
    else if field = "ty" then do
      let type ← Ty.ofJson value
      StructField.ofFields fields name (some type)
    else StructField.ofFields fields name type
termination_by structural x => x

end

end DeltaCircuit
