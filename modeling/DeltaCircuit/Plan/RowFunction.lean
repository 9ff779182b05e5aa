import DeltaCircuit.Circuit.Basic
import DeltaCircuit.Plan.Fold
import DeltaCircuit.Plan.JoinKeys
import DeltaCircuit.Plan.ScalarCompiler

/-!
# Row functions

The functions that compiled plans apply to rows. Each is a closure over a row `t`, passed by
reference, that is put together from the columns of the row.

* `schemaTuple` — a row of a schema out of one expression a column.
* `filterFunction`, `projectFunction` — conditions and projections.
* `conformFunction` — converts the columns of a row to another schema.
* `presenceFunction`, `keyFunction`, `joinFunction` — the parts of an indexed join.
* `groupFunction`, `flattenFunction` — the parts around an aggregate.
* `wholeRowFunction`, `keyOnlyFunction` — the parts of an intersection.
-/

namespace DeltaCircuit

/-- A closure over a row. -/
def rowFunction (rowType : Ty) (body : Expr → Except CompileError Expr) :
    Except CompileError Expr := do
  let type := Ty.byRef rowType
  let body ← body (Expr.var "t" type)
  ofTerm (Expr.closure [.named "t" type] body)

/-- A row of a schema, with every expression converted to the type of its column. -/
def schemaTuple (fields : List Expr) (schema : Schema) : Except CompileError Expr := do
  if fields.length ≠ schema.width then
    throw (.malformed (.rowWidth fields.length schema.width))
  ofTerm do
    let fields ← (fields.zip schema.types).mapM fun (field, type) => Expr.castIfNeeded field type
    Expr.tuple fields

/-- The first columns of a row. -/
def rowColumns (row : Expr) (count : Nat) : Except CompileError (List Expr) :=
  ofTerm ((List.range count).mapM fun i => Expr.field row i)

/-! ### Conditions and projections -/

def filterFunction (schema : Schema) (condition : ScalarExpr) : Except CompileError Expr :=
  rowFunction schema.rowType fun row => condition.compilePredicate (some row)

def projectFunction (input : Schema) (exprs : List ScalarExpr) (output : Schema) :
    Except CompileError Expr :=
  rowFunction input.rowType fun row => do
    schemaTuple (← ScalarExpr.compileAll (some row) exprs) output

/-- Converts rows of one schema to another. -/
def conformFunction (source target : Schema) : Except CompileError Expr :=
  rowFunction source.rowType fun row => do schemaTuple (← rowColumns row source.width) target

/-! ### Joins -/

/-- Whether a column is there and may be NULL. -/
def Schema.isNullable (s : Schema) (column : Nat) : Bool :=
  (s.types[column]?.map Ty.nullable).getD false

/-- Whether none of the given columns, of which there is at least one, is NULL. -/
def presenceFunction (schema : Schema) (columns : List Nat) : Except CompileError Expr :=
  let check (row : Expr) (column : Nat) : Except TermError Expr := do
    Expr.unary .isNotNull (← Expr.field row column) .bool
  rowFunction schema.rowType fun row =>
    ofTerm do
      match columns with
      | [] => return Expr.boolLiteral true
      | first :: rest =>
        rest.foldlM (fun all column => do Expr.and all (← check row column)) (← check row first)

/-- A pair of a key, made of columns converted to the types of the key, and the row. -/
def keyFunction (schema : Schema) (columns : List Nat) (types : List Ty) :
    Except CompileError Expr :=
  rowFunction schema.rowType fun row =>
    ofTerm do
      let key ← (columns.zip types).mapM fun (column, type) => do
        Expr.castIfNeeded (← Expr.field row column) type
      Expr.rawTuple [← Expr.tuple key, ← Expr.deref row]

/-- The left columns followed by the right columns, as rows of a schema. -/
def joinFunction (keyType : Ty) (left right output : Schema) : Except CompileError Expr := do
  let l := Expr.var "l" (.byRef left.rowType)
  let r := Expr.var "r" (.byRef right.rowType)
  let fields := (← rowColumns l left.width) ++ (← rowColumns r right.width)
  let body ← schemaTuple fields output
  ofTerm (Expr.closure
    [.named "k" (.byRef keyType), .named "l" (.byRef left.rowType),
      .named "r" (.byRef right.rowType)] body)

/-! ### Aggregates -/

/-- A pair of the group keys and the row. -/
def groupFunction (schema : Schema) (groupKeys : List Nat) : Except CompileError Expr :=
  rowFunction schema.rowType fun row =>
    ofTerm do
      let key ← groupKeys.mapM fun column => Expr.field row column
      Expr.rawTuple [← Expr.tuple key, ← Expr.deref row]

/-- The group keys followed by the aggregates, as rows of a schema. -/
def flattenFunction (keyType resultType : Ty) (keys aggregates : Nat) (output : Schema) :
    Except CompileError Expr :=
  rowFunction (.rawTuple [keyType, resultType]) fun pair => do
    let key ← ofTerm (Expr.field pair 0)
    let values ← ofTerm (Expr.field pair 1)
    schemaTuple ((← rowColumns key keys) ++ (← rowColumns values aggregates)) output

/-- The same row for every row of a schema. -/
def constantFunction (schema : Schema) (row : Expr) : Except CompileError Expr :=
  rowFunction schema.rowType fun _ => .ok row

/-! ### Intersections -/

/-- A pair of the row and nothing. -/
def wholeRowFunction (schema : Schema) : Except CompileError Expr :=
  rowFunction schema.rowType fun row => ofTerm do Expr.rawTuple [← Expr.deref row, Expr.unit]

/-- The key of a joined pair without values. -/
def keyOnlyFunction (schema : Schema) : Except CompileError Expr :=
  let type := Ty.byRef schema.rowType
  ofTerm do
    Expr.closure [.named "k" type, .named "l" (.byRef .unit), .named "r" (.byRef .unit)]
      (← Expr.deref (Expr.var "k" type))

end DeltaCircuit
