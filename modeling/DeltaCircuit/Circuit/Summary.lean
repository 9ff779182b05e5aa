import DeltaCircuit.Circuit.Basic
import DeltaCircuit.Json.Reader

/-!
# Texts and summaries of circuits

* `Circuit.text` — a circuit as a program, one line for an operator.
* `Circuit.summary` — a description of a circuit for code emitters, with types and functions as
  texts.
* `Summary.toJson`, `Summary.ofJson?` — the JSON form of a summary. Fields of an operator that has
  no use for them are left out.
-/

namespace DeltaCircuit

/-! ### Texts -/

/-- The arguments of an operator in the text of a circuit. -/
def Operator.arguments (op : Operator) : List String :=
  let own :=
    match op.kind with
    | .source table _ => [Text.quote table]
    | .constant value => [value.text]
    | .sink name _ _ => [Text.quote name]
    | _ => []
  op.inputs.map streamName ++ own ++ (op.function.map Expr.text).toList

/-- The line of an operator. -/
def Operator.line (id : OperatorId) (op : Operator) : String :=
  "    let " ++ streamName id ++ ": " ++ op.outputType.text ++ " = " ++ op.name ++ "(" ++
    commaSeparated op.arguments ++ ");\n"

/-- The text of a circuit. -/
def Circuit.text (c : Circuit) : String :=
  "circuit " ++ c.name ++ " \x7b\n" ++
    String.join (c.numbered.map fun (id, op) => op.line id) ++ "\x7d"

/-! ### Summaries -/

/-- The description of an operator. -/
structure OperatorSummary where
  id : Nat
  operation : String
  inputs : List Nat
  outputType : String
  multiset : Bool
  function : Option String
  /-- The table of a source, the name of a sink. -/
  name : Option String
  query : Option String
  comment : Option String
deriving DecidableEq

/-- The description of a circuit. -/
structure Summary where
  name : String
  operators : List OperatorSummary
deriving DecidableEq

def Operator.summary (id : OperatorId) (op : Operator) : OperatorSummary where
  id := id
  operation := op.name
  inputs := op.inputs
  outputType := op.outputType.text
  multiset := op.isMultiset
  function := op.function.map Expr.text
  name := op.kind.table?.or op.kind.sinkName?
  query := match op.kind with
    | .sink _ query _ => some query
    | _ => none
  comment := match op.kind with
    | .sink _ _ comment => comment
    | _ => none

def Circuit.summary (c : Circuit) : Summary :=
  ⟨c.name, c.numbered.map fun (id, op) => op.summary id⟩

/-! ### JSON -/

/-- A field that is left out without a value. -/
def optionalField (name : String) (value : Option String) : List (String × Json) :=
  (value.map fun s => (name, Json.string s)).toList

def OperatorSummary.toJson (s : OperatorSummary) : Json :=
  .object ([("id", .ofNat s.id), ("operation", .string s.operation),
      ("inputs", .array (s.inputs.map .ofNat)), ("output_type", .string s.outputType),
      ("multiset", .bool s.multiset)] ++
    optionalField "function" s.function ++ optionalField "name" s.name ++
    optionalField "query" s.query ++ optionalField "comment" s.comment)

def Summary.toJson (s : Summary) : Json :=
  .object [("name", .string s.name), ("operators", .array (s.operators.map OperatorSummary.toJson))]

/-- An optional text field; the outer option is about its form. -/
def optionalString? (j : Json) (name : String) : Option (Option String) :=
  match j.field? name with
  | none | some .null => some none
  | some (.string s) => some (some s)
  | some _ => none

def OperatorSummary.ofJson? (j : Json) : Option OperatorSummary := do
  return {
    id := ← (← j.field? "id").asNat?
    operation := ← (← j.field? "operation").asString?
    inputs := ← (← (← j.field? "inputs").asArray?).mapM Json.asNat?
    outputType := ← (← j.field? "output_type").asString?
    multiset := ← (← j.field? "multiset").asBool?
    function := ← optionalString? j "function"
    name := ← optionalString? j "name"
    query := ← optionalString? j "query"
    comment := ← optionalString? j "comment" }

def Summary.ofJson? (j : Json) : Option Summary := do
  let name ← (← j.field? "name").asString?
  let operators ← (← (← j.field? "operators").asArray?).mapM OperatorSummary.ofJson?
  return ⟨name, operators⟩

/-- The summary of a circuit as a text. -/
def Circuit.toJson (c : Circuit) : String := c.summary.toJson.pretty

end DeltaCircuit
