import DeltaCircuit.Circuit.Pass.Manager
import DeltaCircuit.Options
import DeltaCircuit.Plan.Lowering

/-!
# Programs

A program is a list of commands: tables become sources, views become sinks over the operators of
their plans, and constant rows add up to the contents of their tables.

* `Compiler` — what the compiler has done so far.
* `Compiler.run` — one command. A command that fails leaves the operators, the diagnostics and the
  view name that it has added; contents only change as a whole.
* `Compiler.finish` — the circuit, simplified and without dead code, made incremental if the options
  say so.
* `Program.compile` — a whole program, up to the first failure.
-/

namespace DeltaCircuit

/-- What the compiler has done so far. -/
structure Compiler where
  options : Options
  lowering : Lowering
  /-- The names of the views, those of views that have failed included. -/
  views : List String
  /-- Constant rows by table. -/
  contents : List (String × ZSetLiteral)

/-- A compiled program. -/
structure Compilation where
  circuit : Circuit
  /-- The rows that tables hold at the start. -/
  contents : List (String × ZSetLiteral)
  diagnostics : List Diagnostic

namespace Compiler

/-- The compiler before the first command. -/
def start (options : Options) : Compiler where
  options := options
  lowering := ⟨.empty options.functionName, [], []⟩
  views := []
  contents := []

/-- Runs a step of lowering. -/
def runLowering {α : Type} (c : Compiler) (action : Lower α) :
    Except CompileError α × Compiler :=
  let (result, lowering) := action c.lowering
  (result, { c with lowering })

/-! ### Commands -/

/-- A new table is a source. -/
def createTable (name : String) (schema : Schema) : Lower Unit := do
  if (Assoc.get? (← get).tables name).isSome then throw (.duplicateTable name)
  let source ← Lower.append (·.addSource name schema.rowType)
  modify fun t => { t with tables := Assoc.set t.tables name ⟨source, schema⟩ }

/-- A new view is a sink over its plan. -/
def createView (name query : String) (comment : Option String) (plan : Plan) :
    Lower Unit := do
  let output ← plan.lower
  discard (Lower.append (·.addSink output name query comment))

/-- A row of constants as a row of a schema. -/
def constantRow (schema : Schema) (row : ConstantRow) : Except CompileError Expr := do
  schemaTuple (← ScalarExpr.compileAll none row) schema

/-- The contents of a table with further rows, each of which counts `weight` times. -/
def contentsWith (c : Compiler) (table : String) (rows : List ConstantRow) (weight : Int) :
    Except CompileError ZSetLiteral := do
  match Assoc.get? c.lowering.tables table with
  | none => throw (.unknownTable table)
  | some ⟨_, schema⟩ =>
    let contents := (Assoc.get? c.contents table).getD (.empty schema.rowType)
    rows.foldlM (fun contents row => do
      let element ← constantRow schema row
      ofTerm (contents.addElement element weight)) contents

/-- Adds rows to the contents of a table. -/
def addRows (c : Compiler) (table : String) (rows : List ConstantRow) (weight : Int) :
    Except CompileError Unit × Compiler :=
  match c.contentsWith table rows weight with
  | .ok contents => (.ok (), { c with contents := Assoc.set c.contents table contents })
  | .error e => (.error e, c)

/-- Runs one command. -/
def run (c : Compiler) (command : Command) : Except CompileError Unit × Compiler :=
  match command with
  | .createTable name schema => c.runLowering (createTable name schema)
  | .createView name query comment plan =>
    if c.views.contains name then (.error (.duplicateView name), c)
    else
      { c with views := c.views ++ [name] }.runLowering (createView name query comment plan)
  | .insert table rows => c.addRows table rows 1
  | .delete table rows => c.addRows table rows (-1)

/-! ### The result -/

/-- The passes that options ask for. -/
def passes (options : Options) : List Pass :=
  if options.incrementalize then [.simplifyFunctions, .incrementalize, .deadCode]
  else [.simplifyFunctions, .deadCode]

/-- The compiled program. -/
def finish (c : Compiler) : Except CompileError Compilation :=
  match Pass.runAll (passes c.options) none c.lowering.circuit with
  | .ok circuit => .ok ⟨circuit, c.contents, c.lowering.diagnostics⟩
  | .error e => .error (.circuit e)

/-- Runs commands up to the first failure. -/
def runAll (c : Compiler) : List Command → Except CompileError Compiler
  | [] => .ok c
  | command :: commands =>
    match c.run command with
    | (.ok (), c) => c.runAll commands
    | (.error e, _) => .error e

end Compiler

/-- Compiles a whole program. -/
def Program.compile (options : Options) (commands : List Command) :
    Except CompileError Compilation := do
  (← (Compiler.start options).runAll commands).finish

end DeltaCircuit
